import TeenyBasic.Block
import TeenyBasic.CodeBuffer
import TeenyBasic.Formula
import TeenyBasic.Lexer
import TeenyBasic.Number.Written

/-!
# Programs in C

A program is put into C line by line.  The `Draft` holds the code written so far together with
the names met on the way: a variable is declared in the header when it is first assigned, a label
may be declared once, and every jump must name a label that the program declares somewhere.  The
blocks that are still open are kept on a stack, innermost first.

The writer looks one token ahead of the one it works on.  A lexical fault is therefore
reported as soon as the last token before it becomes the one to work on, and that token never
reaches the C program.
-/

namespace TeenyBasic

/-- A C program being written. -/
structure Draft where
  code : CodeBuffer
  /-- Variables that were assigned. -/
  assigned : List String
  /-- Labels that were declared. -/
  labels : List String
  /-- Labels that jumps name, with the line of the first jump to each. -/
  jumps : List (String × Int)

namespace Draft

/-- The beginning of every generated program. -/
def start : Draft where
  code := (CodeBuffer.empty.writeHeader "#include <stdio.h>").writeHeader "int main(void) \x7b"
  assigned := []
  labels := []
  jumps := []

def writeLine (draft : Draft) (code : String) : Draft :=
  { draft with code := draft.code.writeLine code }

/-- Declares a variable unless it is declared already. -/
def declare (draft : Draft) (name : String) : Draft :=
  if draft.assigned.contains name then draft
  else
    { draft with
      assigned := name :: draft.assigned
      code := draft.code.writeHeader ("float " ++ name ++ ";") }

def noteJump (draft : Draft) (name : String) (line : Int) : Draft :=
  if draft.jumps.any (·.1 = name) then draft
  else { draft with jumps := draft.jumps ++ [(name, line)] }

/-- Operands as C text; a variable is usable once it is declared. -/
def meaning (draft : Draft) : Meaning String where
  number := Number.written
  lookup name := if draft.assigned.contains name then some name else none
  positive operand := "+" ++ operand
  negative operand := "-" ++ operand

end Draft

/-- An operator in C.  The operand behind `*` or `/` is made a double, so that no product or
quotient is computed in whole numbers. -/
def Operator.code : Operator → String
  | arithmetic .plus => " + "
  | arithmetic .minus => " - "
  | arithmetic .times => " * (double)"
  | arithmetic .divide => " / (double)"
  | relation operator => " " ++ operator.text ++ " "

/-- A formula in C: its operands and operators in their order. -/
def Formula.code (formula : Formula String) : String :=
  formula.rest.foldl (fun code step => code ++ (step.1.code ++ step.2)) formula.first

/-- The C word that opens a block. -/
def Block.code : Block → String
  | conditional => "if"
  | loop => "while"

namespace CProgram

/-- Writes a line that prints a string or a value with the given number of decimals. -/
def printLine (precision : Int) (ending : Ending) (draft : Draft) (tokens : List Token) :
    Except Diagnostic (Draft × List Token) :=
  match tokens with
  | ⟨.string content, _, _⟩ :: rest =>
      .ok (draft.writeLine ("printf(\"" ++ content ++ "\\n\");"), rest)
  | _ =>
      match Formula.expression draft.meaning ending tokens with
      | .error diagnostic => .error diagnostic
      | .ok (formula, rest) =>
          .ok (draft.writeLine ("printf(\"%." ++ toString precision ++ "f\\n\", (float)(" ++
            formula.code ++ "));"), rest)

def openLine (block : Block) (ending : Ending) (draft : Draft) (tokens : List Token) :
    Except Diagnostic (Draft × List Token) :=
  match Formula.condition draft.meaning ending tokens with
  | .error diagnostic => .error diagnostic
  | .ok (formula, rest) =>
      match ending.expect (.keyword block.separator) rest with
      | .error diagnostic => .error diagnostic
      | .ok rest =>
          .ok (draft.writeLine (block.code ++ " (" ++ formula.code ++ ") \x7b"), rest)

def labelLine (ending : Ending) (draft : Draft) (tokens : List Token) :
    Except Diagnostic (Draft × List Token) :=
  match ending.expectName tokens with
  | .error diagnostic => .error diagnostic
  | .ok (name, line, rest) =>
      match ending.reachable rest with
      | .error diagnostic => .error diagnostic
      | .ok () =>
          if draft.labels.contains name then .error (.repeatedLabel name line)
          else
            .ok ({ draft with labels := name :: draft.labels }.writeLine (name ++ ":;"), rest)

def gotoLine (ending : Ending) (draft : Draft) (tokens : List Token) :
    Except Diagnostic (Draft × List Token) :=
  match ending.expectName tokens with
  | .error diagnostic => .error diagnostic
  | .ok (name, line, rest) =>
      .ok ((draft.noteJump name line).writeLine ("goto " ++ name ++ ";"), rest)

/-- Writes an assignment.  The variable counts as assigned in its own expression. -/
def letLine (ending : Ending) (draft : Draft) (tokens : List Token) :
    Except Diagnostic (Draft × List Token) :=
  match ending.expectName tokens with
  | .error diagnostic => .error diagnostic
  | .ok (name, _, rest) =>
      let draft := draft.declare name
      match ending.expect .assign rest with
      | .error diagnostic => .error diagnostic
      | .ok rest =>
          match Formula.expression draft.meaning ending rest with
          | .error diagnostic => .error diagnostic
          | .ok (formula, rest) =>
              .ok (draft.writeLine (name ++ " = " ++ formula.code ++ ";"), rest)

/-- Writes a line that reads a number: what is no number is skipped and counts as zero. -/
def inputLine (ending : Ending) (draft : Draft) (tokens : List Token) :
    Except Diagnostic (Draft × List Token) :=
  match ending.expectName tokens with
  | .error diagnostic => .error diagnostic
  | .ok (name, _, rest) =>
      .ok (((((draft.declare name).writeLine
        ("if(1 != scanf(\"%f\", &" ++ name ++ ")) \x7b")).writeLine
        (name ++ " = 0;")).writeLine
        "scanf(\"%*s\");").writeLine
        "\x7d", rest)

/-- Writes the closing word of a block, which must be the innermost open one. -/
def closeLine (block : Block) (draft : Draft) (blocks : List Block) (token : Token)
    (rest : List Token) : Except Diagnostic (Draft × List Block × List Token) :=
  match blocks with
  | inner :: outer =>
      if inner = block then .ok (draft.writeLine "\x7d", outer, rest)
      else .error (.invalidStatement token)
  | [] => .error (.invalidStatement token)

/-- The result of a line after which the given blocks are open. -/
def inside (blocks : List Block) :
    Except Diagnostic (Draft × List Token) → Except Diagnostic (Draft × List Block × List Token)
  | .error diagnostic => .error diagnostic
  | .ok (draft, rest) => .ok (draft, blocks, rest)

/-- Writes what stands before the end of a line, and says which blocks are open after it. -/
def line (precision : Int) (ending : Ending) (draft : Draft) (blocks : List Block)
    (token : Token) (rest : List Token) :
    Except Diagnostic (Draft × List Block × List Token) :=
  match token.lexeme with
  | .keyword .printWord => inside blocks (printLine precision ending draft rest)
  | .keyword .ifWord => inside (.conditional :: blocks) (openLine .conditional ending draft rest)
  | .keyword .whileWord => inside (.loop :: blocks) (openLine .loop ending draft rest)
  | .keyword .endifWord => closeLine .conditional draft blocks token rest
  | .keyword .endwhileWord => closeLine .loop draft blocks token rest
  | .keyword .labelWord => inside blocks (labelLine ending draft rest)
  | .keyword .gotoWord => inside blocks (gotoLine ending draft rest)
  | .keyword .letWord => inside blocks (letLine ending draft rest)
  | .keyword .inputWord => inside blocks (inputLine ending draft rest)
  | _ => .error (.invalidStatement token)

/-- Writes a whole line with the empty lines behind it. -/
def wholeLine (precision : Int) (ending : Ending) (draft : Draft) (blocks : List Block)
    (token : Token) (rest : List Token) :
    Except Diagnostic (Draft × List Block × List Token) :=
  match line precision ending draft blocks token rest with
  | .error diagnostic => .error diagnostic
  | .ok (draft, blocks, rest) =>
      match ending.expectLineEnd rest with
      | .error diagnostic => .error diagnostic
      | .ok rest => .ok (draft, blocks, rest)

/-- The first jump to a label that is declared nowhere. -/
def firstDangling? (draft : Draft) : Option (String × Int) :=
  draft.jumps.find? fun jump => !draft.labels.contains jump.1

/-- Ends a C program. -/
def finish (draft : Draft) : Except Diagnostic String :=
  let draft := (draft.writeLine "return 0;").writeLine "\x7d"
  match firstDangling? draft with
  | some (name, line) => .error (.undeclaredLabel name line)
  | none => .ok draft.code.code

theorem length_printLine_lt {precision : Int} {ending : Ending} {draft next : Draft}
    {tokens rest : List Token}
    (taken : printLine precision ending draft tokens = .ok (next, rest)) :
    rest.length < tokens.length := by
  unfold printLine at taken
  split at taken
  · simp only [Except.ok.injEq, Prod.mk.injEq] at taken
    rw [← taken.2]
    simp
  · split at taken
    · simp at taken
    · next found =>
      simp only [Except.ok.injEq, Prod.mk.injEq] at taken
      rw [← taken.2]
      exact Formula.length_expression_lt found

theorem length_openLine_lt {block : Block} {ending : Ending} {draft next : Draft}
    {tokens rest : List Token}
    (taken : openLine block ending draft tokens = .ok (next, rest)) :
    rest.length < tokens.length := by
  unfold openLine at taken
  split at taken
  · simp at taken
  · next found =>
    split at taken
    · simp at taken
    · next separated =>
      simp only [Except.ok.injEq, Prod.mk.injEq] at taken
      rw [← taken.2]
      exact Nat.lt_trans (Ending.length_expect_lt separated) (Formula.length_condition_lt found)

theorem length_labelLine_lt {ending : Ending} {draft next : Draft} {tokens rest : List Token}
    (taken : labelLine ending draft tokens = .ok (next, rest)) :
    rest.length < tokens.length := by
  unfold labelLine at taken
  split at taken
  · simp at taken
  · next found =>
    split at taken
    · simp at taken
    · split at taken
      · simp at taken
      · simp only [Except.ok.injEq, Prod.mk.injEq] at taken
        rw [← taken.2]
        exact Ending.length_expectName_lt found

theorem length_gotoLine_lt {ending : Ending} {draft next : Draft} {tokens rest : List Token}
    (taken : gotoLine ending draft tokens = .ok (next, rest)) :
    rest.length < tokens.length := by
  unfold gotoLine at taken
  split at taken
  · simp at taken
  · next found =>
    simp only [Except.ok.injEq, Prod.mk.injEq] at taken
    rw [← taken.2]
    exact Ending.length_expectName_lt found

theorem length_letLine_lt {ending : Ending} {draft next : Draft} {tokens rest : List Token}
    (taken : letLine ending draft tokens = .ok (next, rest)) :
    rest.length < tokens.length := by
  unfold letLine at taken
  split at taken
  · simp at taken
  · next named =>
    simp only at taken
    split at taken
    · simp at taken
    · next assigned =>
      split at taken
      · simp at taken
      · next found =>
        simp only [Except.ok.injEq, Prod.mk.injEq] at taken
        rw [← taken.2]
        have := Ending.length_expectName_lt named
        have := Ending.length_expect_lt assigned
        have := Formula.length_expression_lt found
        omega

theorem length_inputLine_lt {ending : Ending} {draft next : Draft} {tokens rest : List Token}
    (taken : inputLine ending draft tokens = .ok (next, rest)) :
    rest.length < tokens.length := by
  unfold inputLine at taken
  split at taken
  · simp at taken
  · next found =>
    simp only [Except.ok.injEq, Prod.mk.injEq] at taken
    rw [← taken.2]
    exact Ending.length_expectName_lt found

theorem length_closeLine_le {block : Block} {draft next : Draft} {blocks remaining : List Block}
    {token : Token} {tokens rest : List Token}
    (taken : closeLine block draft blocks token tokens = .ok (next, remaining, rest)) :
    rest.length ≤ tokens.length := by
  unfold closeLine at taken
  split at taken
  · split at taken
    · simp only [Except.ok.injEq, Prod.mk.injEq] at taken
      exact Nat.le_of_eq (congrArg List.length taken.2.2.symm)
    · simp at taken
  · simp at taken

theorem of_inside_eq_ok {blocks remaining : List Block} {next : Draft} {rest : List Token}
    {result : Except Diagnostic (Draft × List Token)}
    (taken : inside blocks result = .ok (next, remaining, rest)) : result = .ok (next, rest) := by
  unfold inside at taken
  split at taken
  · simp at taken
  · simp only [Except.ok.injEq, Prod.mk.injEq] at taken
    rw [taken.1, taken.2.2]

theorem length_line_le {precision : Int} {ending : Ending} {draft next : Draft}
    {blocks remaining : List Block} {token : Token} {tokens rest : List Token}
    (taken : line precision ending draft blocks token tokens = .ok (next, remaining, rest)) :
    rest.length ≤ tokens.length := by
  unfold line at taken
  split at taken
  · exact Nat.le_of_lt (length_printLine_lt (of_inside_eq_ok taken))
  · exact Nat.le_of_lt (length_openLine_lt (of_inside_eq_ok taken))
  · exact Nat.le_of_lt (length_openLine_lt (of_inside_eq_ok taken))
  · exact length_closeLine_le taken
  · exact length_closeLine_le taken
  · exact Nat.le_of_lt (length_labelLine_lt (of_inside_eq_ok taken))
  · exact Nat.le_of_lt (length_gotoLine_lt (of_inside_eq_ok taken))
  · exact Nat.le_of_lt (length_letLine_lt (of_inside_eq_ok taken))
  · exact Nat.le_of_lt (length_inputLine_lt (of_inside_eq_ok taken))
  · simp at taken

theorem length_wholeLine_le {precision : Int} {ending : Ending} {draft next : Draft}
    {blocks remaining : List Block} {token : Token} {tokens rest : List Token}
    (taken : wholeLine precision ending draft blocks token tokens = .ok (next, remaining, rest)) :
    rest.length ≤ tokens.length := by
  unfold wholeLine at taken
  split at taken
  · simp at taken
  · next read =>
    split at taken
    · simp at taken
    · next ended =>
      simp only [Except.ok.injEq, Prod.mk.injEq] at taken
      rw [← taken.2.2]
      exact Nat.le_trans (Nat.le_of_lt (Ending.length_expectLineEnd_lt ended))
        (length_line_le read)

/-- Writes all lines that remain, given the blocks that are open. -/
def lines (precision : Int) (ending : Ending) (draft : Draft) (blocks : List Block) :
    List Token → Except Diagnostic String
  | [] =>
      match ending with
      | .fault diagnostic => .error diagnostic
      | .eof line =>
          if blocks.isEmpty then finish draft
          else .error (.invalidStatement (Token.eofAt line))
  | token :: rest =>
      match _taken : wholeLine precision ending draft blocks token rest with
      | .error diagnostic => .error diagnostic
      | .ok (draft, blocks, rest) => lines precision ending draft blocks rest
termination_by tokens => tokens.length
decreasing_by exact Nat.lt_succ_of_le (length_wholeLine_le _taken)

/-- The tokens that reach the C program: all of them, but not the last one before a
fault. -/
def lookedAt (found : Lexer.Scan) : List Token :=
  match found.ending with
  | .eof _ => found.tokens
  | .fault _ => found.tokens.dropLast

/-- The number of decimals printed unless settings say otherwise. -/
def defaultPrecision : Int := 2

/-- The C text of a program, which prints numbers with the given number of decimals. -/
def ofSource (precision : Int) (source : String) : Except Diagnostic String :=
  let found := Lexer.scan (Lexer.Cursor.start source)
  lines precision found.ending Draft.start [] ((lookedAt found).dropWhile Token.isNewline)

end CProgram

end TeenyBasic
