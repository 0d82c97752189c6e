import TeenyBasic.Proofs.CProgramTree
import TeenyBasic.Proofs.FormulaValue
import TeenyBasic.Proofs.OperatorGroups
import TeenyBasic.Proofs.WholeArithmetic

/-!
# Arithmetic on whole numbers in C

A whole number is written in C without a point, so it is an `int` there.  The operand behind `*`
is converted to a double, and whatever is joined with a double is a double too.  Nothing is
converted in sums and differences: as long as no product takes part in them, C computes them in
`int`, and they have no value if they leave its range.  So an expression of whole numbers has its
value in C just if none of its sums without a product leaves that range (`agreesInC_iff`).
-/

namespace TeenyBasic

/-- The integer is one that an `int` in C holds. -/
def InInt (number : ℤ) : Prop :=
  -2 ^ 31 ≤ number ∧ number < 2 ^ 31

instance (number : ℤ) : Decidable (InInt number) :=
  inferInstanceAs (Decidable (_ ∧ _))

inductive CValue
  | int (word : Int32)
  | double (value : Float)

namespace CValue

/-- An integer as an `int`.  What an `int` does not hold is undefined. -/
def int? (number : ℤ) : Option CValue :=
  if InInt number then some (int (Int32.ofInt number)) else none

def toDouble : CValue → Float
  | int word => .ofModel (.ofInt32 word)
  | double value => value

/-- The result of an operator: an `int` if both operands are, else a double. -/
def combine? (operator : Arithmetic) : CValue → CValue → Option CValue
  | int left, int right =>
      if operator = .divide ∧ right.toInt = 0 then none
      else int? (operator.onIntegers left.toInt right.toInt)
  | left, right => some (double (operator.apply left.toDouble right.toDouble))

/-- The value is the given integer, as an `int` or as a double. -/
def Is (isInt : Bool) (number : ℤ) : CValue → Prop
  | int word => isInt = true ∧ word.toInt = number
  | double value => isInt = false ∧ Number.IsInteger value number

@[simp] theorem toInt_ofInt {number : ℤ} (inside : InInt number) :
    (Int32.ofInt number).toInt = number := by
  obtain ⟨below, above⟩ := inside
  exact Int32.toInt_ofInt_of_le below above

theorem Is.toDouble {value : CValue} {isInt : Bool} {number : ℤ} (is : value.Is isInt number) :
    Number.IsInteger value.toDouble number := by
  cases value with
  | int word =>
    obtain ⟨-, rfl⟩ := is
    exact Number.isInteger_ofInt32 word
  | double value => exact is.2

end CValue

/-- What may stand in front of an operand in C: a sign, or the conversion to a double. -/
inductive CMark
  | plus
  | minus
  | double
  deriving DecidableEq

namespace CMark

def text : CMark → String
  | plus => "+"
  | minus => "-"
  | double => "(double)"

def act? : CMark → CValue → Option CValue
  | plus, value => some value
  | minus, .int word => CValue.int? (-word.toInt)
  | minus, .double value => some (.double value.neg)
  | double, value => some (.double value.toDouble)

theorem exists_text_eq (mark : CMark) :
    ∃ first rest, mark.text.toList = first :: rest ∧ first.isDigit = false := by
  cases mark with
  | plus => exact ⟨'+', [], by decide, by decide⟩
  | minus => exact ⟨'-', [], by decide, by decide⟩
  | double => exact ⟨'(', "double)".toList, by decide, by decide⟩

private theorem eq_of_text_append {mark mark' : CMark} {rest rest' : String}
    (same : mark.text ++ rest = mark'.text ++ rest') : mark = mark' ∧ rest = rest' := by
  have mark_eq : mark = mark' := by
    have lists := congrArg String.toList same
    cases mark <;> cases mark' <;> simp [text] at lists ⊢
  subst mark_eq
  exact ⟨rfl, (String.append_right_inj _).mp same⟩

end CMark

/-- An operand in C: a constant behind marks. -/
inductive COperand
  | constant (number : ℕ)
  | marked (mark : CMark) (operand : COperand)

namespace COperand

def code : COperand → String
  | constant number => String.ofList (Number.wholeDigits number)
  | marked mark operand => mark.text ++ operand.code

/-- No sign stands right in front of the same sign: `++` and `--` are operators of their own. -/
def IsLexed : COperand → Prop
  | constant _ => True
  | marked _ (constant _) => True
  | marked mark (marked mark' operand) =>
      (mark = .double ∨ mark ≠ mark') ∧ (marked mark' operand).IsLexed

def value? : COperand → Option CValue
  | constant number => CValue.int? number
  | marked mark operand => operand.value?.bind mark.act?

theorem isDigit_of_mem_constant {number : ℕ} {character : Char}
    (member : character ∈ (constant number).code.toList) : character.isDigit = true := by
  rw [code, String.toList_ofList] at member
  exact Number.isDigit_of_mem_wholeDigits member

theorem code_constant_ne_marked (number : ℕ) (mark : CMark) (operand : COperand) :
    (constant number).code ≠ (marked mark operand).code := by
  intro same
  obtain ⟨first, rest, text_eq, other⟩ := mark.exists_text_eq
  have member : first ∈ (constant number).code.toList := by
    rw [same, code, String.toList_append, text_eq]
    exact List.mem_cons_self
  rw [isDigit_of_mem_constant member] at other
  cases other

private theorem code_injective {operand other : COperand} (same : operand.code = other.code) :
    operand = other := by
  induction operand generalizing other with
  | constant number =>
    cases other with
    | constant number' => rw [Number.wholeDigits_injective (String.ofList_injective same)]
    | marked mark other => exact absurd same (code_constant_ne_marked number mark other)
  | marked mark operand induction =>
    cases other with
    | constant number => exact absurd same.symm (code_constant_ne_marked number mark operand)
    | marked mark' other =>
      obtain ⟨rfl, rest⟩ := CMark.eq_of_text_append same
      rw [induction rest]

private theorem blank_notMem_code (operand : COperand) : ' ' ∉ operand.code.toList := by
  induction operand with
  | constant number => exact fun member => absurd (isDigit_of_mem_constant member) (by decide)
  | marked mark operand induction =>
    have noBlank : ' ' ∉ mark.text.toList := by cases mark <;> decide
    rw [code, String.toList_append, List.mem_append]
    exact fun either => either.elim noBlank induction

private theorem length_code_pos (operand : COperand) : 0 < operand.code.toList.length := by
  cases operand with
  | constant number =>
    rw [code, String.toList_ofList]
    exact List.length_pos_iff.mpr (Number.wholeDigits_ne_nil number)
  | marked mark operand =>
    obtain ⟨first, rest, text_eq, -⟩ := mark.exists_text_eq
    simp [code, text_eq]

/-- An operand is no operator: a sign has something behind it. -/
theorem code_ne_text (operand : COperand) (operator : Arithmetic) :
    operand.code ≠ operator.text := by
  have one : operator.text.toList.length = 1 := by cases operator <;> decide
  intro same
  cases operand with
  | constant number =>
    have digits {character : Char} (member : character ∈ operator.text.toList) :
        character.isDigit = true := by
      rw [← same] at member
      exact isDigit_of_mem_constant member
    cases operator with
    | plus => exact absurd (@digits '+' (by decide)) (by decide)
    | minus => exact absurd (@digits '-' (by decide)) (by decide)
    | times => exact absurd (@digits '*' (by decide)) (by decide)
    | divide => exact absurd (@digits '/' (by decide)) (by decide)
  | marked mark operand =>
    obtain ⟨first, rest, text_eq, -⟩ := mark.exists_text_eq
    have more := operand.length_code_pos
    rw [← same, code, String.toList_append, text_eq, List.length_append, List.length_cons] at one
    omega

end COperand

/-- How operands and operators are written in C.  Sums bind weaker than products. -/
def cScript : OperatorScript Arithmetic COperand where
  operandText := COperand.code
  operatorText := Arithmetic.text
  isWeak operator := !operator.isMultiplicative
  operandText_inj := COperand.code_injective
  operatorText_inj {operator operator'} same := by
    revert same
    cases operator <;> cases operator' <;> decide
  blank_notMem_operandText := COperand.blank_notMem_code
  blank_notMem_operatorText operator := by cases operator <;> decide
  operandText_ne operand operator _ := operand.code_ne_text operator

abbrev CExpression :=
  OperatorGroup Arithmetic COperand

namespace CExpression

/-- All operands of the expression can be told apart from other words of C. -/
def IsLexed : CExpression → Prop
  | .operand operand => operand.IsLexed
  | .join _ left right => IsLexed left ∧ IsLexed right

def Reads (text : String) (expression : CExpression) : Prop :=
  OperatorGroup.Reads cScript text expression ∧ IsLexed expression

/-- The value of an expression, unless it is undefined. -/
def value? : CExpression → Option CValue
  | .operand operand => operand.value?
  | .join operator left right =>
      (value? left).bind fun leftValue =>
        (value? right).bind fun rightValue => leftValue.combine? operator rightValue

end CExpression

namespace Expression

/-- The exact result of an expression: its literals are whole numbers that an `int` in C holds, it
has no quotient, and all its results are below 2^53 in magnitude. -/
inductive Exact : Expression → ℤ → Prop
  | number {value : Float} {number : ℕ} (whole : Number.IsWhole value number)
      (small : number < 2 ^ 31) : Exact (.number value) number
  | positive {operand : Expression} {number : ℤ} (inner : Exact operand number) :
      Exact (.positive operand) number
  | negative {operand : Expression} {number : ℤ} (inner : Exact operand number) :
      Exact (.negative operand) (-number)
  | binary {operator : Arithmetic} {left right : Expression} {number number' : ℤ}
      (leftExact : Exact left number) (rightExact : Exact right number')
      (noQuotient : operator ≠ .divide) (small : |operator.onIntegers number number'| < 2 ^ 53) :
      Exact (.binary operator left right) (operator.onIntegers number number')

/-- Whether C computes the expression in `int`: no product takes part in it. -/
def isInt : Expression → Bool
  | number _ => true
  | read _ _ => true
  | positive operand => operand.isInt
  | negative operand => operand.isInt
  | binary operator left right => !operator.isMultiplicative && (left.isInt && right.isInt)

/-- No sum or difference that C computes in `int` leaves its range. -/
def StaysInt : Expression → Prop
  | number _ => True
  | read _ _ => True
  | positive operand => operand.StaysInt
  | negative operand => operand.StaysInt
  | binary operator left right =>
      left.StaysInt ∧ right.StaysInt ∧ ((binary operator left right).isInt = true →
        ∀ number, (binary operator left right).Exact number → InInt number)

theorem Exact.unique {tree : Expression} {number number' : ℤ} (exact : tree.Exact number)
    (exact' : tree.Exact number') : number = number' := by
  induction exact generalizing number' with
  | number whole small =>
    cases exact' with
    | number whole' small' =>
      obtain ⟨mantissa, exponent, finite, found⟩ := whole
      obtain ⟨mantissa', exponent', finite', found'⟩ := whole'
      cases finite.symm.trans finite'
      exact congrArg _ (Option.some.inj (found.symm.trans found'))
  | positive _ induction =>
    cases exact' with
    | positive exact' => exact induction exact'
  | negative _ induction =>
    cases exact' with
    | negative exact' => rw [induction exact']
  | binary _ _ _ _ leftInduction rightInduction =>
    cases exact' with
    | binary left right => rw [leftInduction left, rightInduction right]

theorem staysInt_binary_iff {operator : Arithmetic} {left right : Expression} {number : ℤ}
    (exact : (binary operator left right).Exact number) :
    (binary operator left right).StaysInt ↔ left.StaysInt ∧ right.StaysInt ∧
      ((binary operator left right).isInt = true → InInt number) := by
  have same : (∀ other, (binary operator left right).Exact other → InInt other) ↔
      InInt number := by
    constructor
    · intro all
      exact all number exact
    · intro inside other exact'
      rwa [← exact.unique exact']
  rw [StaysInt, same]

end Expression

/-- A result that is undefined unless `stays`, and then is the given integer. -/
def CValue.Yields (stays : Prop) (isInt : Bool) (number : ℤ) (result : Option CValue) : Prop :=
  (¬ stays ∧ result = none) ∨ (stays ∧ ∃ value, result = some value ∧ value.Is isInt number)

namespace CValue

theorem is_int {number : ℤ} (inside : InInt number) :
    (int (Int32.ofInt number)).Is true number :=
  ⟨rfl, toInt_ofInt inside⟩

private theorem yields_int? (number : ℤ) : Yields (InInt number) true number (int? number) := by
  unfold int?
  split
  · next inside => exact .inr ⟨inside, _, rfl, is_int inside⟩
  · next outside => exact .inl ⟨outside, rfl⟩

theorem Is.combine? {operator : Arithmetic} {left right : CValue} {isInt isInt' : Bool}
    {number number' : ℤ} (is : left.Is isInt number) (is' : right.Is isInt' number')
    (noQuotient : operator ≠ .divide) (small : |operator.onIntegers number number'| < 2 ^ 53) :
    Yields ((isInt && isInt') = true → InInt (operator.onIntegers number number'))
      (isInt && isInt') (operator.onIntegers number number') (left.combine? operator right) := by
  have exact : Number.IsInteger (operator.apply left.toDouble right.toDouble)
      (operator.onIntegers number number') := is.toDouble.apply is'.toDouble noQuotient small
  cases left with
  | int word =>
    obtain ⟨rfl, rfl⟩ := is
    cases right with
    | int word' =>
      obtain ⟨rfl, rfl⟩ := is'
      rw [CValue.combine?, if_neg fun quotient => noQuotient quotient.1]
      simpa using yields_int? (operator.onIntegers word.toInt word'.toInt)
    | double value' =>
      obtain ⟨rfl, -⟩ := is'
      exact .inr ⟨by simp, _, rfl, rfl, exact⟩
  | double value =>
    obtain ⟨rfl, -⟩ := is
    exact .inr ⟨by simp, _, rfl, rfl, exact⟩

theorem Yields.join {operator : Arithmetic} {left right : Option CValue} {stays stays' : Prop}
    {isInt isInt' : Bool} {number number' : ℤ} (yields : Yields stays isInt number left)
    (yields' : Yields stays' isInt' number' right) (noQuotient : operator ≠ .divide)
    (small : |operator.onIntegers number number'| < 2 ^ 53) :
    Yields (stays ∧ stays' ∧
        ((isInt && isInt') = true → InInt (operator.onIntegers number number')))
      (isInt && isInt') (operator.onIntegers number number')
      (left.bind fun leftValue => right.bind fun rightValue =>
        leftValue.combine? operator rightValue) := by
  obtain ⟨leaves, rfl⟩ | ⟨stays, value, rfl, is⟩ := yields
  · exact .inl ⟨fun all => leaves all.1, rfl⟩
  obtain ⟨leaves, rfl⟩ | ⟨stays', value', rfl, is'⟩ := yields'
  · exact .inl ⟨fun all => leaves all.2.1, rfl⟩
  obtain ⟨leaves, undefined⟩ | ⟨inside, result, defined, is⟩ := is.combine? is' noQuotient small
  · exact .inl ⟨fun all => leaves all.2.2, undefined⟩
  · exact .inr ⟨⟨stays, stays', inside⟩, result, defined, is⟩

end CValue

theorem COperand.IsLexed.double {operand : COperand} (lexed : operand.IsLexed) :
    (marked .double operand).IsLexed := by
  cases operand with
  | constant number => trivial
  | marked mark operand => exact ⟨.inl rfl, lexed⟩

namespace Expression

/-- The expression of C has the text of the tree, and its value where the tree stays in `int`. -/
structure Renders (tree : Expression) (number : ℤ) (expression : CExpression) : Prop where
  code_eq : expression.code cScript = tree.toC
  lexed : expression.IsLexed
  yields : CValue.Yields tree.StaysInt tree.isInt number expression.value?

variable {tokens rest : List Token} {tree : Expression} {number : ℤ}

theorem exists_constant (derived : Grammar.Primary tokens tree rest) (exact : tree.Exact number) :
    ∃ natural : ℕ, number = natural ∧ InInt natural ∧ tree.StaysInt ∧ tree.isInt = true ∧
      tree.toC = (COperand.constant natural).code := by
  cases exact with
  | @number value natural whole small =>
    have inside : InInt natural := ⟨by omega, by exact_mod_cast small⟩
    exact ⟨natural, rfl, inside, trivial, rfl, Number.written_of_isWhole whole (by omega)⟩
  | _ => cases derived

/-- An operand is an `int` in C, whether it has a sign or not. -/
theorem exists_operand (derived : Grammar.Unary tokens tree rest) (exact : tree.Exact number) :
    tree.StaysInt ∧ tree.isInt = true ∧ ∃ (operand : COperand) (value : CValue),
      operand.code = tree.toC ∧ operand.IsLexed ∧ operand.value? = some value ∧
        value.Is true number := by
  cases derived with
  | unsigned derived =>
    obtain ⟨natural, rfl, inside, stays, isInt, text⟩ := exists_constant derived exact
    refine ⟨stays, isInt, .constant natural, _, text.symm, trivial, ?_, CValue.is_int inside⟩
    rw [COperand.value?, CValue.int?, if_pos inside]
  | positive derived =>
    cases exact with
    | positive inner =>
    obtain ⟨natural, rfl, inside, stays, isInt, text⟩ := exists_constant derived inner
    refine ⟨stays, isInt, .marked .plus (.constant natural), _, ?_, trivial, ?_,
      CValue.is_int inside⟩
    · rw [toC, text]
      rfl
    · rw [COperand.value?, COperand.value?, CValue.int?, if_pos inside]
      rfl
  | negative derived =>
    cases exact with
    | negative inner =>
    obtain ⟨natural, rfl, inside, stays, isInt, text⟩ := exists_constant derived inner
    have inside' : InInt (-natural) := by
      unfold InInt at inside ⊢
      omega
    refine ⟨stays, isInt, .marked .minus (.constant natural), _, ?_, trivial, ?_,
      CValue.is_int inside'⟩
    · rw [toC, text]
      rfl
    · rw [COperand.value?, COperand.value?, CValue.int?, if_pos inside, Option.bind_some,
        CMark.act?, CValue.toInt_ofInt inside, CValue.int?, if_pos inside']

/-- A binary expression is computed in `int` just if both operands are, as C has them. -/
theorem yields_binary {operator : Arithmetic} {left right : Expression} {number number' : ℤ}
    {leftValue rightValue : Option CValue} {isInt' : Bool}
    (exact : (binary operator left right).Exact (operator.onIntegers number number'))
    (isInt_eq : (binary operator left right).isInt = (left.isInt && isInt'))
    (noQuotient : operator ≠ .divide) (small : |operator.onIntegers number number'| < 2 ^ 53)
    (yields : CValue.Yields left.StaysInt left.isInt number leftValue)
    (yields' : CValue.Yields right.StaysInt isInt' number' rightValue) :
    CValue.Yields (binary operator left right).StaysInt (binary operator left right).isInt
      (operator.onIntegers number number')
      (leftValue.bind fun value =>
        rightValue.bind fun value' => value.combine? operator value') := by
  rw [staysInt_binary_iff exact, isInt_eq]
  exact yields.join yields' noQuotient small

theorem exists_term (derived : Grammar.Term tokens tree rest) (exact : tree.Exact number) :
    ∃ expression, tree.Renders number expression ∧ expression.IsTight cScript.isWeak := by
  induction derived generalizing number with
  | first derived =>
    obtain ⟨stays, isInt, operand, value, text, lexed, defined, is⟩ := exists_operand derived exact
    refine ⟨.operand operand, ⟨text, lexed, .inr ⟨stays, value, defined, ?_⟩⟩, trivial⟩
    rwa [isInt]
  | @further _ _ left right operator _ _ _ multiplicative derived induction =>
    have whole := exact
    cases exact with
    | @binary _ _ _ number number' leftExact rightExact noQuotient small =>
    obtain ⟨expression, renders, tight⟩ := induction leftExact
    obtain ⟨stays, -, operand, value, text, lexed, defined, is⟩ :=
      exists_operand derived rightExact
    refine ⟨.join operator expression (.operand (.marked .double operand)), ⟨?_, ?_, ?_⟩, ?_⟩
    · rw [OperatorGroup.code, renders.code_eq, toC, if_pos multiplicative, ← text]
      simp only [String.append_assoc]
      rfl
    · exact ⟨renders.lexed, lexed.double⟩
    · -- the right operand is a double, so the product is one
      have yields' : CValue.Yields right.StaysInt false number'
          (COperand.marked .double operand).value? := by
        refine .inr ⟨stays, .double value.toDouble, ?_, rfl, is.toDouble⟩
        rw [COperand.value?, defined]
        rfl
      exact yields_binary whole (by simp [isInt, multiplicative]) noQuotient small renders.yields
        yields'
    · exact ⟨by simp [cScript, multiplicative], tight⟩

private theorem exists_sum (derived : Grammar.Sum tokens tree rest) (exact : tree.Exact number) :
    ∃ expression, tree.Renders number expression ∧ expression.IsGrouped cScript.isWeak := by
  induction derived generalizing number with
  | first derived =>
    obtain ⟨expression, renders, tight⟩ := exists_term derived exact
    exact ⟨expression, renders, tight.isGrouped⟩
  | @further _ _ left right operator _ _ _ additive derived induction =>
    have whole := exact
    cases exact with
    | @binary _ _ _ number number' leftExact rightExact noQuotient small =>
    obtain ⟨expression, renders, grouped⟩ := induction leftExact
    obtain ⟨expression', renders', tight⟩ := exists_term derived rightExact
    refine ⟨.join operator expression expression', ⟨?_, ?_, ?_⟩, ?_⟩
    · rw [OperatorGroup.code, renders.code_eq, renders'.code_eq, toC, if_neg (by simp [additive])]
      simp only [String.append_assoc]
      rfl
    · exact ⟨renders.lexed, renders'.lexed⟩
    · exact yields_binary whole (by simp [isInt, additive]) noQuotient small renders.yields
        renders'.yields
    · have weak : cScript.isWeak operator = true := by simp [cScript, additive]
      rw [OperatorGroup.IsGrouped, if_pos weak]
      exact ⟨grouped, tight⟩

theorem Exact.exists_row (exact : tree.Exact number) (draft : Draft) :
    ∃ row, tree.row draft.meaning = .ok row ∧ row.code = tree.toC := by
  induction exact with
  | number whole small => exact ⟨_, rfl, rfl⟩
  | positive _ induction =>
    obtain ⟨row, made, text⟩ := induction
    refine ⟨⟨"+" ++ row.first, row.rest⟩, ?_, ?_⟩
    · rw [Expression.row, made]
      rfl
    · rw [Formula.code_behind, text, toC]
  | negative _ induction =>
    obtain ⟨row, made, text⟩ := induction
    refine ⟨⟨"-" ++ row.first, row.rest⟩, ?_, ?_⟩
    · rw [Expression.row, made]
      rfl
    · rw [Formula.code_behind, text, toC]
  | @binary operator _ _ _ _ _ _ _ _ leftInduction rightInduction =>
    obtain ⟨left, made, text⟩ := leftInduction
    obtain ⟨right, made', text'⟩ := rightInduction
    refine ⟨left.join (.arithmetic operator) right, ?_, ?_⟩
    · rw [Expression.row, made, made']
      rfl
    · rw [Formula.code_join, Operator.code_arithmetic, text, text', toC]
      simp only [String.append_assoc]

private theorem Exact.exists_value (exact : tree.Exact number) (symbols : Symbols) :
    ∃ value, tree.value symbols = .ok value ∧ Number.IsInteger value number := by
  induction exact with
  | number whole small => exact ⟨_, rfl, whole.isInteger (by omega)⟩
  | positive _ induction =>
    obtain ⟨value, found, integer⟩ := induction
    exact ⟨value, found, integer⟩
  | negative _ induction =>
    obtain ⟨value, found, integer⟩ := induction
    refine ⟨value.neg, ?_, integer.neg⟩
    rw [Expression.value, found]
    rfl
  | @binary operator _ _ _ _ _ _ noQuotient small leftInduction rightInduction =>
    obtain ⟨value, found, integer⟩ := leftInduction
    obtain ⟨value', found', integer'⟩ := rightInduction
    refine ⟨operator.apply value value', ?_, integer.apply integer' noQuotient small⟩
    rw [Expression.value, found, found']
    rfl

end Expression

/-- Both readers take the tokens as an expression, C reads the text of it in one way, and the value
that it has in C is defined and equals the one that is computed.  Equality is that of numbers, so
it does not look at the sign of zero. -/
def AgreesInC (ending : Ending) (draft : Draft) (machine : Machine) (tokens : List Token) : Prop :=
  ∃ code formula behind expression value,
    Formula.expression draft.meaning ending tokens = .ok (code, behind) ∧
    Formula.expression machine.meaning ending tokens = .ok (formula, behind) ∧
    (∀ other, CExpression.Reads code.code other ↔ other = expression) ∧
    expression.value? = some value ∧ (value.toDouble == formula.value) = true

namespace Expression.Exact

variable {tokens behind : List Token} {tree : Expression} {number : ℤ}

theorem exists_readings (exact : tree.Exact number) (derived : Grammar.Sum tokens tree behind)
    (stops : Formula.Stops Operator.isArithmetic behind) (ending : Ending) (draft : Draft)
    (machine : Machine) :
    ∃ code formula expression,
      Formula.expression draft.meaning ending tokens = .ok (code, behind) ∧
      Formula.expression machine.meaning ending tokens = .ok (formula, behind) ∧
      (∀ other, CExpression.Reads code.code other ↔ other = expression) ∧
      CValue.Yields tree.StaysInt tree.isInt number expression.value? ∧
      Number.IsInteger formula.value number := by
  obtain ⟨code, made, text⟩ := exact.exists_row draft
  obtain ⟨value, found, integer⟩ := exact.exists_value machine.symbols
  obtain ⟨expression, renders, grouped⟩ := exists_sum derived exact
  have computed := Formula.value_of_sum machine derived
  rw [found] at computed
  obtain ⟨formula, made', rfl⟩ : ∃ formula, tree.row machine.meaning = .ok formula ∧
      formula.value = value := by
    cases row : tree.row machine.meaning with
    | error diagnostic =>
      rw [row] at computed
      cases computed
    | ok formula =>
      rw [row] at computed
      exact ⟨formula, rfl, Except.ok.inj computed⟩
  have reads : CExpression.Reads code.code expression :=
    ⟨⟨renders.code_eq.trans text.symm, grouped⟩, renders.lexed⟩
  refine ⟨code, formula, expression, ?_, ?_, fun other => ⟨fun other => ?_, ?_⟩, renders.yields,
    integer⟩
  · rw [Formula.expression_eq_row derived stops, made]
    rfl
  · rw [Formula.expression_eq_row derived stops, made']
    rfl
  · exact other.1.unique reads.1
  · rintro rfl
    exact reads

private theorem agreesInC (exact : tree.Exact number) (derived : Grammar.Sum tokens tree behind)
    (stops : Formula.Stops Operator.isArithmetic behind) (stays : tree.StaysInt) (ending : Ending)
    (draft : Draft) (machine : Machine) : AgreesInC ending draft machine tokens := by
  obtain ⟨code, formula, expression, written, computed, reads, yields, integer⟩ :=
    exact.exists_readings derived stops ending draft machine
  obtain ⟨leaves, -⟩ | ⟨-, value, defined, is⟩ := yields
  · exact absurd stays leaves
  · exact ⟨code, formula, behind, expression, value, written, computed, reads, defined,
      is.toDouble.beq integer⟩

theorem staysInt (exact : tree.Exact number) (derived : Grammar.Sum tokens tree behind)
    (stops : Formula.Stops Operator.isArithmetic behind) {ending : Ending} {draft : Draft}
    {machine : Machine} (agrees : AgreesInC ending draft machine tokens) : tree.StaysInt := by
  obtain ⟨code, formula, expression, written, computed, reads, yields, -⟩ :=
    exact.exists_readings derived stops ending draft machine
  obtain ⟨code', formula', behind', expression', value, written', -, reads', defined, -⟩ := agrees
  cases written.symm.trans written'
  have same : expression' = expression := (reads expression').mp ((reads' expression').mpr rfl)
  rw [same] at defined
  obtain ⟨-, undefined⟩ | ⟨stays, -⟩ := yields
  · rw [undefined] at defined
    cases defined
  · exact stays

end Expression.Exact

namespace Sample

def literal (digits : List Char) : Token :=
  ⟨.number (Lexer.numberValue digits []), String.ofList digits, 1⟩

def sign (operator : Arithmetic) : Token :=
  ⟨.arithmetic operator, operator.text, 1⟩

def lineEnd : List Token :=
  [⟨.newline, "\n", 1⟩]

theorem stops_lineEnd : Formula.Stops Operator.isArithmetic lineEnd :=
  Formula.stops_of_operator?_eq_none rfl

theorem exact_literal {digits : List Char} {number : ℕ}
    (value_eq : Number.digitsValue digits = number) (small : number < 2 ^ 31) :
    (Expression.number (Lexer.numberValue digits [])).Exact number := by
  subst value_eq
  exact .number (Number.isWhole_numberValue (by omega) 0) small

/-- The digits of the greatest `int`. -/
def greatest : List Char :=
  ['2', '1', '4', '7', '4', '8', '3', '6', '4', '7']

/-- The tree of `2147483647 + 1`. -/
def leaving : Expression :=
  .binary .plus (.number (Lexer.numberValue greatest [])) (.number (Lexer.numberValue ['1'] []))

def leavingTokens : List Token :=
  literal greatest :: sign .plus :: literal ['1'] :: lineEnd

theorem sum_leaving : Grammar.Sum leavingTokens leaving lineEnd :=
  .further (.first (.first (.unsigned .number))) rfl (.first (.unsigned .number))

theorem exact_leaving : leaving.Exact 2147483648 :=
  @Expression.Exact.binary .plus _ _ 2147483647 1 (exact_literal (by decide) (by decide))
    (exact_literal (by decide) (by decide)) (by decide) (by decide)

private theorem not_staysInt_leaving : ¬ leaving.StaysInt := by
  unfold leaving
  rw [Expression.staysInt_binary_iff exact_leaving]
  rintro ⟨-, -, stays⟩
  exact absurd (stays rfl) (by decide)

/-- The tree of `1 - 2147483647 - 2 * 2147483647`. -/
def staying : Expression :=
  .binary .minus
    (.binary .minus (.number (Lexer.numberValue ['1'] []))
      (.number (Lexer.numberValue greatest [])))
    (.binary .times (.number (Lexer.numberValue ['2'] []))
      (.number (Lexer.numberValue greatest [])))

def stayingTokens : List Token :=
  literal ['1'] :: sign .minus :: literal greatest :: sign .minus :: literal ['2'] ::
    sign .times :: literal greatest :: lineEnd

theorem sum_staying : Grammar.Sum stayingTokens staying lineEnd :=
  .further
    (.further (.first (.first (.unsigned .number))) rfl (.first (.unsigned .number))) rfl
    (.further (.first (.unsigned .number)) rfl (.unsigned .number))

theorem exact_stayingDifference :
    (Expression.binary .minus (.number (Lexer.numberValue ['1'] []))
      (.number (Lexer.numberValue greatest []))).Exact (-2147483646) :=
  @Expression.Exact.binary .minus _ _ 1 2147483647 (exact_literal (by decide) (by decide))
    (exact_literal (by decide) (by decide)) (by decide) (by decide)

theorem exact_stayingProduct :
    (Expression.binary .times (.number (Lexer.numberValue ['2'] []))
      (.number (Lexer.numberValue greatest []))).Exact 4294967294 :=
  @Expression.Exact.binary .times _ _ 2 2147483647 (exact_literal (by decide) (by decide))
    (exact_literal (by decide) (by decide)) (by decide) (by decide)

theorem exact_staying : staying.Exact (-6442450940) :=
  @Expression.Exact.binary .minus _ _ (-2147483646) 4294967294 exact_stayingDifference
    exact_stayingProduct (by decide) (by decide)

theorem staysInt_staying : staying.StaysInt := by
  unfold staying
  rw [Expression.staysInt_binary_iff exact_staying,
    Expression.staysInt_binary_iff exact_stayingDifference,
    Expression.staysInt_binary_iff exact_stayingProduct]
  refine ⟨⟨trivial, trivial, fun _ => by decide⟩, ⟨trivial, trivial, ?_⟩, ?_⟩
  · intro computedInInt
    cases computedInInt
  · intro computedInInt
    cases computedInInt

def idle : Machine :=
  .start ⟨[], 1, ⟨[], [], 0⟩⟩ []

end Sample

/-- An expression of whole numbers, written as they are, has the value in C that the machine
computes, just if no sum or difference without a product in it leaves the range of an `int`. -/
theorem agreesInC_iff {tokens behind : List Token} {tree : Expression} {number : ℤ}
    (derived : Grammar.Sum tokens tree behind)
    (stops : Formula.Stops Operator.isArithmetic behind) (exact : tree.Exact number)
    (ending : Ending) (draft : Draft) (machine : Machine) :
    AgreesInC ending draft machine tokens ↔ tree.StaysInt := by
  constructor
  · intro agrees
    exact exact.staysInt derived stops agrees
  · intro stays
    exact exact.agreesInC derived stops stays ending draft machine

/-- The product is a double, so what is joined with it is no `int` either. -/
theorem agreesInC_iff_staying :
    Grammar.Sum Sample.stayingTokens Sample.staying Sample.lineEnd ∧
      Sample.staying.Exact (-6442450940) ∧ Sample.staying.StaysInt ∧
      AgreesInC (.eof 2) Draft.start Sample.idle Sample.stayingTokens :=
  ⟨Sample.sum_staying, Sample.exact_staying, Sample.staysInt_staying,
    (agreesInC_iff Sample.sum_staying Sample.stops_lineEnd Sample.exact_staying (.eof 2)
      Draft.start Sample.idle).mpr Sample.staysInt_staying⟩

/-- In C, `2147483647 + 1` is a sum of two `int`s that no `int` holds. -/
theorem not_agreesInC_leaving :
    Grammar.Sum Sample.leavingTokens Sample.leaving Sample.lineEnd ∧
      Sample.leaving.Exact 2147483648 ∧
      ∀ ending draft machine, ¬ AgreesInC ending draft machine Sample.leavingTokens := by
  refine ⟨Sample.sum_leaving, Sample.exact_leaving, fun ending draft machine agrees => ?_⟩
  exact Sample.not_staysInt_leaving
    (Sample.exact_leaving.staysInt Sample.sum_leaving Sample.stops_lineEnd agrees)

end TeenyBasic
