import TeenyBasic.Ending

/-!
# Formulas

A formula is a row of operands joined by operators.  An expression uses the operators of
arithmetic only; a condition has at least one comparison.  There are no parentheses, so a row is
all there is to read, and the precedence of the operators decides only what the row means.

Reading is the same for everyone who reads formulas.  What an operand means is a parameter, the
`Meaning`: a number for someone who computes, a piece of text for someone who writes code.
-/

namespace TeenyBasic

/-- An operator between two operands. -/
inductive Operator
  | arithmetic (operator : Arithmetic)
  | relation (operator : Relation)
  deriving DecidableEq, Repr

/-- Operands joined by operators. -/
structure Formula (α : Type) where
  first : α
  rest : List (Operator × α)

/-- What numbers, variables and signs mean to a reader; a variable without a meaning may not be
used yet. -/
structure Meaning (α : Type) where
  number : Float → α
  lookup : String → Option α
  positive : α → α
  negative : α → α

def Lexeme.operator? : Lexeme → Option Operator
  | arithmetic operator => some (.arithmetic operator)
  | relation operator => some (.relation operator)
  | _ => none

def Operator.isArithmetic : Operator → Bool
  | arithmetic _ => true
  | relation _ => false

namespace Formula

variable {α : Type}

/-- What a sign in front of an operand does to it, if the lexeme is a sign. -/
def sign? (meaning : Meaning α) : Lexeme → Option (α → α)
  | .arithmetic .plus => some meaning.positive
  | .arithmetic .minus => some meaning.negative
  | _ => none

/-- Reads a number or a variable. -/
def primary (meaning : Meaning α) (token : Token) : Except Diagnostic α :=
  match token.lexeme with
  | .number value => .ok (meaning.number value)
  | .identifier name =>
      match meaning.lookup name with
      | some value => .ok value
      | none => .error (.unassignedVariable name token.line)
  | _ => .error (.unexpectedOperand token)

/-- Reads a number or a variable behind a sign, given what the sign does. -/
def primaryBehind (meaning : Meaning α) (ending : Ending) (sign : α → α) :
    List Token → Except Diagnostic (α × List Token)
  | [] => .error (ending.refuse .unexpectedOperand)
  | token :: rest =>
      match primary meaning token with
      | .ok value => .ok (sign value, rest)
      | .error diagnostic => .error diagnostic

/-- Reads an operand: a number or a variable, with at most one sign. -/
def operand (meaning : Meaning α) (ending : Ending) :
    List Token → Except Diagnostic (α × List Token)
  | [] => .error (ending.refuse .unexpectedOperand)
  | token :: rest =>
      match sign? meaning token.lexeme with
      | some sign => primaryBehind meaning ending sign rest
      | none => primaryBehind meaning ending id (token :: rest)

theorem length_primaryBehind_lt {meaning : Meaning α} {ending : Ending} {sign : α → α}
    {tokens rest : List Token} {value : α}
    (taken : primaryBehind meaning ending sign tokens = .ok (value, rest)) :
    rest.length < tokens.length := by
  unfold primaryBehind at taken
  split at taken
  · simp at taken
  · split at taken
    · simp only [Except.ok.injEq, Prod.mk.injEq] at taken
      rw [← taken.2]
      simp
    · simp at taken

theorem length_operand_lt {meaning : Meaning α} {ending : Ending}
    {tokens rest : List Token} {value : α}
    (taken : operand meaning ending tokens = .ok (value, rest)) :
    rest.length < tokens.length := by
  unfold operand at taken
  split at taken
  · simp at taken
  · split at taken
    · exact Nat.lt_succ_of_lt (length_primaryBehind_lt taken)
    · exact length_primaryBehind_lt taken

/-- Reads the operators that `accepts` admits, each with the operand behind it. -/
def operandsAfter (accepts : Operator → Bool) (meaning : Meaning α) (ending : Ending) :
    List Token → Except Diagnostic (List (Operator × α) × List Token)
  | [] => .ok ([], [])
  | token :: rest =>
      match token.lexeme.operator? with
      | none => .ok ([], token :: rest)
      | some operator =>
          if accepts operator then
            match _taken : operand meaning ending rest with
            | .error diagnostic => .error diagnostic
            | .ok (value, after) =>
                match operandsAfter accepts meaning ending after with
                | .error diagnostic => .error diagnostic
                | .ok (others, last) => .ok ((operator, value) :: others, last)
          else .ok ([], token :: rest)
termination_by tokens => tokens.length
decreasing_by exact Nat.lt_succ_of_lt (length_operand_lt _taken)

/-- Reads a row of operands joined by operators that `accepts` admits. -/
def read (accepts : Operator → Bool) (meaning : Meaning α) (ending : Ending)
    (tokens : List Token) : Except Diagnostic (Formula α × List Token) :=
  match operand meaning ending tokens with
  | .error diagnostic => .error diagnostic
  | .ok (first, rest) =>
      match operandsAfter accepts meaning ending rest with
      | .error diagnostic => .error diagnostic
      | .ok (others, last) => .ok (⟨first, others⟩, last)

def expression (meaning : Meaning α) (ending : Ending) (tokens : List Token) :
    Except Diagnostic (Formula α × List Token) :=
  read Operator.isArithmetic meaning ending tokens

def compares (formula : Formula α) : Bool :=
  formula.rest.any fun step => !step.1.isArithmetic

def condition (meaning : Meaning α) (ending : Ending) (tokens : List Token) :
    Except Diagnostic (Formula α × List Token) :=
  match read (fun _ => true) meaning ending tokens with
  | .error diagnostic => .error diagnostic
  | .ok (formula, rest) =>
      if formula.compares then .ok (formula, rest)
      else .error (ending.refuseFront .missingRelation rest)

theorem length_operandsAfter_le {accepts : Operator → Bool} {meaning : Meaning α}
    {ending : Ending} {tokens rest : List Token} {others : List (Operator × α)}
    (taken : operandsAfter accepts meaning ending tokens = .ok (others, rest)) :
    rest.length ≤ tokens.length := by
  fun_induction operandsAfter accepts meaning ending tokens generalizing others rest with
  | case1 => simp_all
  | case2 => simp_all
  | case3 => simp at taken
  | case4 => simp at taken
  | case5 token tail operator _ _ value after found others' last recursive induction =>
      simp only [Except.ok.injEq, Prod.mk.injEq] at taken
      obtain ⟨-, rfl⟩ := taken
      have := length_operand_lt found
      have := induction recursive
      simp only [List.length_cons]
      omega
  | case6 => simp_all

theorem length_read_lt {accepts : Operator → Bool} {meaning : Meaning α} {ending : Ending}
    {tokens rest : List Token} {formula : Formula α}
    (taken : read accepts meaning ending tokens = .ok (formula, rest)) :
    rest.length < tokens.length := by
  unfold read at taken
  split at taken
  · simp at taken
  · next first middle found =>
    split at taken
    · simp at taken
    · next others last following =>
      simp only [Except.ok.injEq, Prod.mk.injEq] at taken
      rw [← taken.2]
      exact Nat.lt_of_le_of_lt (length_operandsAfter_le following) (length_operand_lt found)

theorem length_expression_lt {meaning : Meaning α} {ending : Ending}
    {tokens rest : List Token} {formula : Formula α}
    (taken : expression meaning ending tokens = .ok (formula, rest)) :
    rest.length < tokens.length :=
  length_read_lt taken

theorem length_condition_lt {meaning : Meaning α} {ending : Ending}
    {tokens rest : List Token} {formula : Formula α}
    (taken : condition meaning ending tokens = .ok (formula, rest)) :
    rest.length < tokens.length := by
  unfold condition at taken
  split at taken
  · simp at taken
  · next found middle reading =>
    split at taken
    · simp only [Except.ok.injEq, Prod.mk.injEq] at taken
      rw [← taken.2]
      exact length_read_lt reading
    · simp at taken

end Formula

end TeenyBasic
