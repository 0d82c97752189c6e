import TeenyBasic.Ending
import TeenyBasic.Proofs.SyntaxTree

/-!
# The grammar

    program     := {NEWLINE} {statement}
    statement   := PRINT (STRING | expression) newline
                 | IF comparison THEN newline {statement} ENDIF newline
                 | WHILE comparison REPEAT newline {statement} ENDWHILE newline
                 | LABEL IDENTIFIER newline
                 | GOTO IDENTIFIER newline
                 | LET IDENTIFIER EQ expression newline
                 | INPUT IDENTIFIER newline
    comparison  := expression compOp expression {compOp expression}
    expression  := term {(+|-) term}
    term        := unary {(*|/) unary}
    unary       := [+|-] primary
    primary     := NUMBER | IDENTIFIER
    newline     := NEWLINE {NEWLINE}

Each production is a relation between the tokens in front of it, the tree that it yields and the
tokens behind it.  A repetition grows at its right end, so the tree of a row of operators leans to
the left.
-/

namespace TeenyBasic

/-- Whether an operator joins the operands of a term, and not the terms of a sum. -/
def Arithmetic.isMultiplicative : Arithmetic → Bool
  | plus => false
  | minus => false
  | times => true
  | divide => true

theorem Lexeme.eq_keyword_of_kind {lexeme : Lexeme} {word : Keyword}
    (same : lexeme.kind = .keyword word) : lexeme = .keyword word := by
  cases lexeme <;> simp_all [Lexeme.kind]

theorem Lexeme.eq_assign_of_kind {lexeme : Lexeme} (same : lexeme.kind = .assign) :
    lexeme = .assign := by
  cases lexeme <;> simp_all [Lexeme.kind]

namespace Ending

variable {ending : Ending} {tokens rest : List Token}

theorem exists_cons_of_expect {kind : Kind} (taken : ending.expect kind tokens = .ok rest) :
    ∃ token, tokens = token :: rest ∧ token.kind = kind := by
  unfold expect at taken
  split at taken
  · simp at taken
  · next token tail =>
    split at taken
    · next same =>
      simp only [Except.ok.injEq] at taken
      exact ⟨token, by rw [taken], same⟩
    · simp at taken

theorem exists_keyword_of_expect {word : Keyword}
    (taken : ending.expect (.keyword word) tokens = .ok rest) :
    ∃ text line, tokens = ⟨.keyword word, text, line⟩ :: rest := by
  obtain ⟨⟨lexeme, text, line⟩, rfl, same⟩ := exists_cons_of_expect taken
  obtain rfl : lexeme = _ := Lexeme.eq_keyword_of_kind same
  exact ⟨text, line, rfl⟩

theorem exists_assign_of_expect (taken : ending.expect .assign tokens = .ok rest) :
    ∃ text line, tokens = ⟨.assign, text, line⟩ :: rest := by
  obtain ⟨⟨lexeme, text, line⟩, rfl, same⟩ := exists_cons_of_expect taken
  obtain rfl : lexeme = _ := Lexeme.eq_assign_of_kind same
  exact ⟨text, line, rfl⟩

theorem exists_identifier_of_expectName {name : String} {line : Int}
    (taken : ending.expectName tokens = .ok (name, line, rest)) :
    ∃ text, tokens = ⟨.identifier name, text, line⟩ :: rest := by
  unfold expectName at taken
  split at taken
  · simp at taken
  · next token tail =>
    obtain ⟨lexeme, text, line'⟩ := token
    split at taken
    · next shape =>
      obtain rfl : lexeme = _ := shape
      simp only [Except.ok.injEq, Prod.mk.injEq] at taken
      obtain ⟨rfl, rfl, rfl⟩ := taken
      exact ⟨text, rfl⟩
    · simp at taken

end Ending

namespace Grammar

/-- `newline := NEWLINE {NEWLINE}` -/
inductive Newline : List Token → List Token → Prop
  | one {rest text line} : Newline (⟨.newline, text, line⟩ :: rest) rest
  | more {tokens rest text line} :
      Newline tokens rest → Newline (⟨.newline, text, line⟩ :: tokens) rest

/-- `primary := NUMBER | IDENTIFIER` -/
inductive Primary : List Token → Expression → List Token → Prop
  | number {value rest text line} :
      Primary (⟨.number value, text, line⟩ :: rest) (.number value) rest
  | identifier {name rest text line} :
      Primary (⟨.identifier name, text, line⟩ :: rest) (.read name line) rest

/-- `unary := [+|-] primary` -/
inductive Unary : List Token → Expression → List Token → Prop
  | unsigned {tokens rest operand} : Primary tokens operand rest → Unary tokens operand rest
  | positive {tokens rest operand text line} :
      Primary tokens operand rest →
      Unary (⟨.arithmetic .plus, text, line⟩ :: tokens) (.positive operand) rest
  | negative {tokens rest operand text line} :
      Primary tokens operand rest →
      Unary (⟨.arithmetic .minus, text, line⟩ :: tokens) (.negative operand) rest

/-- `term := unary {(*|/) unary}` -/
inductive Term : List Token → Expression → List Token → Prop
  | first {tokens rest operand} : Unary tokens operand rest → Term tokens operand rest
  | further {tokens middle rest left right operator text line} :
      Term tokens left (⟨.arithmetic operator, text, line⟩ :: middle) →
      operator.isMultiplicative = true →
      Unary middle right rest →
      Term tokens (.binary operator left right) rest

/-- `expression := term {(+|-) term}` -/
inductive Sum : List Token → Expression → List Token → Prop
  | first {tokens rest term} : Term tokens term rest → Sum tokens term rest
  | further {tokens middle rest left right operator text line} :
      Sum tokens left (⟨.arithmetic operator, text, line⟩ :: middle) →
      operator.isMultiplicative = false →
      Term middle right rest →
      Sum tokens (.binary operator left right) rest

/-- `comparison := expression compOp expression {compOp expression}` -/
inductive Comparison : List Token → Condition → List Token → Prop
  | first {tokens middle rest left right relation text line} :
      Sum tokens left (⟨.relation relation, text, line⟩ :: middle) →
      Sum middle right rest →
      Comparison tokens (.compare relation left right) rest
  | further {tokens middle rest left right relation text line} :
      Comparison tokens left (⟨.relation relation, text, line⟩ :: middle) →
      Sum middle right rest →
      Comparison tokens (.chain relation left right) rest

/-- The statements that take a single line, up to the end of the line. -/
inductive Line : List Token → Statement → List Token → Prop
  | printText {content rest text line text' line'} :
      Line (⟨.keyword .printWord, text, line⟩ :: ⟨.string content, text', line'⟩ :: rest)
        (.action (.printText content)) rest
  | printValue {tokens rest value text line} :
      Sum tokens value rest →
      Line (⟨.keyword .printWord, text, line⟩ :: tokens) (.action (.printValue value)) rest
  | label {name rest text line text' line'} :
      Line (⟨.keyword .labelWord, text, line⟩ :: ⟨.identifier name, text', line'⟩ :: rest)
        (.label name line') rest
  | goto {name rest text line text' line'} :
      Line (⟨.keyword .gotoWord, text, line⟩ :: ⟨.identifier name, text', line'⟩ :: rest)
        (.goto name line') rest
  | assign {name tokens rest value text line text' line' text'' line''} :
      Sum tokens value rest →
      Line (⟨.keyword .letWord, text, line⟩ :: ⟨.identifier name, text', line'⟩ ::
        ⟨.assign, text'', line''⟩ :: tokens) (.action (.assign name value)) rest
  | input {name rest text line text' line'} :
      Line (⟨.keyword .inputWord, text, line⟩ :: ⟨.identifier name, text', line'⟩ :: rest)
        (.action (.input name)) rest

/-- `{statement}` -/
inductive Statements : List Token → List Statement → List Token → Prop
  | none {tokens} : Statements tokens [] tokens
  | line {tokens middle next rest statement statements} :
      Line tokens statement middle →
      Newline middle next →
      Statements next statements rest →
      Statements tokens (statement :: statements) rest
  | block {block condition body tokens middle inner last next rest statements text line text' line'
        text'' line''} :
      Comparison tokens condition (⟨.keyword (Block.separator block), text', line'⟩ :: middle) →
      Newline middle inner →
      Statements inner body (⟨.keyword block.closer, text'', line''⟩ :: last) →
      Newline last next →
      Statements next statements rest →
      Statements (⟨.keyword block.opener, text, line⟩ :: tokens)
        (.block block condition body :: statements) rest

/-- `program := {NEWLINE} {statement}` -/
inductive Program : List Token → List Statement → Prop
  | statements {tokens tree} : Statements tokens tree [] → Program tokens tree
  | newline {tokens tree text line} :
      Program tokens tree → Program (⟨.newline, text, line⟩ :: tokens) tree

/-- The tokens from a place inside blocks up to the end of the program: statements up to the end
of the innermost block, the word that closes it, and so on outwards. -/
inductive Remainder : List Token → List Statement → List Enclosing → Prop
  | outermost {tokens here} : Statements tokens here [] → Remainder tokens here []
  | inside {block after enclosing tokens middle rest here text line} :
      Statements tokens here (⟨.keyword (Block.closer block), text, line⟩ :: middle) →
      Newline middle rest →
      Remainder rest after enclosing →
      Remainder tokens here (⟨block, after⟩ :: enclosing)

/-- The tokens do not begin in the middle of a line end. -/
def Settled (tokens : List Token) : Prop :=
  tokens.dropWhile Token.isNewline = tokens

theorem settled_nil : Settled [] := rfl

theorem settled_keyword (word : Keyword) (text : String) (line : Int) (rest : List Token) :
    Settled (⟨.keyword word, text, line⟩ :: rest) := rfl

theorem Newline.dropWhile {tokens rest : List Token} (ends : Newline tokens rest) :
    tokens.dropWhile Token.isNewline = rest.dropWhile Token.isNewline := by
  induction ends with
  | one => rfl
  | more _ induction => exact induction

/-- A line end that is followed by something else is taken as a whole. -/
theorem Newline.expectLineEnd {tokens rest : List Token} {ending : Ending}
    (ends : Newline tokens rest) (settled : Settled rest) :
    ending.expectLineEnd tokens = .ok rest := by
  have dropped := ends.dropWhile
  rw [settled] at dropped
  cases ends with
  | one =>
      simp only [Ending.expectLineEnd, Ending.expect, Token.kind, Lexeme.kind, if_true]
      exact congrArg Except.ok settled
  | more _ =>
      simp only [Ending.expectLineEnd, Ending.expect, Token.kind, Lexeme.kind, if_true]
      exact congrArg Except.ok dropped

private theorem newline_cons_dropWhile (rest : List Token) (text : String) (line : Int) :
    Newline (⟨.newline, text, line⟩ :: rest) (rest.dropWhile Token.isNewline) := by
  induction rest generalizing text line with
  | nil => exact .one
  | cons token rest induction =>
      obtain ⟨lexeme, text', line'⟩ := token
      cases lexeme with
      | newline => exact .more (induction text' line')
      | _ => exact .one

theorem newline_of_expectLineEnd {tokens rest : List Token} {ending : Ending}
    (taken : ending.expectLineEnd tokens = .ok rest) : Newline tokens rest := by
  cases tokens with
  | nil => simp [Ending.expectLineEnd, Ending.expect] at taken
  | cons token tail =>
      obtain ⟨lexeme, text, line⟩ := token
      cases lexeme with
      | newline =>
          simp only [Ending.expectLineEnd, Ending.expect, Token.kind, Lexeme.kind, if_true,
            Except.ok.injEq] at taken
          subst taken
          exact newline_cons_dropWhile tail text line
      | _ => simp [Ending.expectLineEnd, Ending.expect, Token.kind, Lexeme.kind] at taken

theorem Unary.ne_string {tokens rest : List Token} {tree : Expression}
    (derived : Unary tokens tree rest) (content text : String) (line : Int) (tail : List Token) :
    tokens ≠ ⟨.string content, text, line⟩ :: tail := by
  rintro rfl
  cases derived with
  | unsigned derived => cases derived

theorem Term.ne_string {tokens rest : List Token} {tree : Expression}
    (derived : Term tokens tree rest) (content text : String) (line : Int) (tail : List Token) :
    tokens ≠ ⟨.string content, text, line⟩ :: tail := by
  induction derived with
  | first derived => exact derived.ne_string content text line tail
  | further _ _ _ induction => exact induction

/-- No expression begins with a string. -/
theorem Sum.ne_string {tokens rest : List Token} {tree : Expression}
    (derived : Sum tokens tree rest) (content text : String) (line : Int) (tail : List Token) :
    tokens ≠ ⟨.string content, text, line⟩ :: tail := by
  induction derived with
  | first derived => exact derived.ne_string content text line tail
  | further _ _ _ induction => exact induction

theorem Line.exists_cons {tokens rest : List Token} {statement : Statement}
    (derived : Line tokens statement rest) : ∃ token tail, tokens = token :: tail := by
  cases derived <;> exact ⟨_, _, rfl⟩

theorem Line.settled {tokens rest : List Token} {statement : Statement}
    (derived : Line tokens statement rest) : Settled tokens := by
  cases derived <;> rfl

theorem Statements.settled {tokens rest : List Token} {statements : List Statement}
    (derived : Statements tokens statements rest) (behind : Settled rest) : Settled tokens := by
  cases derived with
  | none => exact behind
  | line first _ _ => exact first.settled
  | block _ _ _ _ _ => rfl

theorem Remainder.settled {tokens : List Token} {here : List Statement}
    {enclosing : List Enclosing} (remains : Remainder tokens here enclosing) : Settled tokens := by
  cases remains with
  | outermost derived => exact derived.settled settled_nil
  | inside derived _ _ => exact derived.settled (settled_keyword _ _ _ _)

/-- A statement in front of what remains of a program. -/
theorem Remainder.cons {tokens next : List Token} {statement : Statement}
    {after : List Statement} {enclosing : List Enclosing}
    (derives : ∀ statements rest, Statements next statements rest →
      Statements tokens (statement :: statements) rest)
    (remains : Remainder next after enclosing) :
    Remainder tokens (statement :: after) enclosing := by
  cases remains with
  | outermost derived => exact .outermost (derives _ _ derived)
  | inside derived ends outer => exact .inside (derives _ _ derived) ends outer

/-- The statements of a program begin behind its first empty lines. -/
theorem Program.statements_dropWhile {tokens : List Token} {tree : List Statement}
    (derived : Program tokens tree) :
    Statements (tokens.dropWhile Token.isNewline) tree [] := by
  induction derived with
  | statements derived =>
      rw [derived.settled settled_nil]
      exact derived
  | newline _ induction => exact induction

theorem program_of_dropWhile {tokens : List Token} {tree : List Statement}
    (derived : Statements (tokens.dropWhile Token.isNewline) tree []) : Program tokens tree := by
  induction tokens with
  | nil => exact .statements derived
  | cons token rest induction =>
      obtain ⟨lexeme, text, line⟩ := token
      cases lexeme with
      | newline => exact .newline (induction derived)
      | _ => exact .statements derived

end Grammar

end TeenyBasic
