import TeenyBasic.Machine
import TeenyBasic.Proofs.BigStep
import TeenyBasic.Proofs.FormulaReading

/-!
# The value of a row is that of its tree

A machine computes the value of a flat row from the left, and keeps in two functions what the
current term will be added to and what the current sum will be compared with.  The grammar has put
the same operands into a tree.  Both come to the same value, and both fail at the same variable
(`value_of_sum`, `isMet_of_comparison`).
-/

namespace TeenyBasic

namespace Formula

/-- A row and a value that fail alike, or else are related. -/
def Evaluates (row : Except Diagnostic (Formula Float)) (value : Except Diagnostic Float)
    (related : Formula Float → Float → Prop) : Prop :=
  (∃ diagnostic, row = .error diagnostic ∧ value = .error diagnostic) ∨
    ∃ formula number, row = .ok formula ∧ value = .ok number ∧ related formula number

/-- The row can be replaced by a single term. -/
def IsTerm (formula : Formula Float) (number : Float) : Prop :=
  ∀ comparison sum others,
    valueFrom comparison sum formula.first (formula.rest ++ others) =
      valueFrom comparison sum number others

/-- The row can be replaced by the last term of a sum. -/
def IsSum (formula : Formula Float) (number : Float) : Prop :=
  ∃ (sum : Float → Float) (term : Float), sum term = number ∧
    ∀ comparison others,
      valueFrom comparison id formula.first (formula.rest ++ others) =
        valueFrom comparison sum term others

/-- The row can be replaced by the last term of the last sum of a comparison. -/
def IsComparison (formula : Formula Float) (number : Float) : Prop :=
  ∃ (comparison sum : Float → Float) (term : Float), comparison (sum term) = number ∧
    ∀ others,
      valueFrom id id formula.first (formula.rest ++ others) =
        valueFrom comparison sum term others

theorem Evaluates.imp {row : Except Diagnostic (Formula Float)} {value : Except Diagnostic Float}
    {related weaker : Formula Float → Float → Prop} (evaluates : Evaluates row value related)
    (implies : ∀ formula number, related formula number → weaker formula number) :
    Evaluates row value weaker := by
  obtain fails | ⟨formula, number, made, found, holds⟩ := evaluates
  · exact .inl fails
  · exact .inr ⟨formula, number, made, found, implies formula number holds⟩

theorem Evaluates.join {left right : Except Diagnostic (Formula Float)}
    {leftValue rightValue : Except Diagnostic Float} {operator : Operator}
    {operation : Float → Float → Float} {first second joint : Formula Float → Float → Prop}
    (evaluatesLeft : Evaluates left leftValue first)
    (evaluatesRight : Evaluates right rightValue second)
    (joins : ∀ leftRow leftNumber rightRow rightNumber, first leftRow leftNumber →
      second rightRow rightNumber →
      joint (leftRow.join operator rightRow) (operation leftNumber rightNumber)) :
    Evaluates (joinRows left operator right) (joinValues operation leftValue rightValue)
      joint := by
  obtain ⟨diagnostic, rfl, rfl⟩ | ⟨leftRow, leftNumber, rfl, rfl, leftHolds⟩ := evaluatesLeft
  · exact .inl ⟨diagnostic, rfl, rfl⟩
  · obtain ⟨diagnostic, rfl, rfl⟩ | ⟨rightRow, rightNumber, rfl, rfl, rightHolds⟩ := evaluatesRight
    · exact .inl ⟨diagnostic, rfl, rfl⟩
    · exact .inr ⟨_, _, rfl, rfl, joins _ _ _ _ leftHolds rightHolds⟩

theorem IsTerm.join {left right : Formula Float} {leftNumber rightNumber : Float}
    {operator : Arithmetic} (multiplicative : operator.isMultiplicative = true)
    (isTerm : IsTerm left leftNumber) (isOperand : right = ⟨rightNumber, []⟩) :
    IsTerm (left.join (.arithmetic operator) right) (operator.apply leftNumber rightNumber) := by
  intro comparison sum others
  subst isOperand
  simp only [Formula.join, List.append_assoc, List.cons_append, List.nil_append]
  rw [isTerm]
  cases operator <;> simp [Arithmetic.isMultiplicative] at multiplicative <;> rfl

theorem IsTerm.isSum {formula : Formula Float} {number : Float} (isTerm : IsTerm formula number) :
    IsSum formula number :=
  ⟨id, number, rfl, fun comparison others => isTerm comparison id others⟩

theorem IsSum.join {left right : Formula Float} {leftNumber rightNumber : Float}
    {operator : Arithmetic} (additive : operator.isMultiplicative = false)
    (isSum : IsSum left leftNumber) (isTerm : IsTerm right rightNumber) :
    IsSum (left.join (.arithmetic operator) right) (operator.apply leftNumber rightNumber) := by
  obtain ⟨sum, term, rfl, replaces⟩ := isSum
  refine ⟨operator.apply (sum term), rightNumber, rfl, fun comparison others => ?_⟩
  simp only [Formula.join, List.append_assoc, List.cons_append]
  rw [replaces, ← isTerm]
  cases operator <;> simp [Arithmetic.isMultiplicative] at additive <;> rfl

theorem IsSum.isComparison {formula : Formula Float} {number : Float}
    (isSum : IsSum formula number) : IsComparison formula number := by
  obtain ⟨sum, term, same, replaces⟩ := isSum
  exact ⟨id, sum, term, same, fun others => replaces id others⟩

theorem IsComparison.join {left right : Formula Float} {leftNumber rightNumber : Float}
    {relation : Relation} (isComparison : IsComparison left leftNumber)
    (isSum : IsSum right rightNumber) :
    IsComparison (left.join (.relation relation) right)
      (truth (relation.holds leftNumber rightNumber)) := by
  obtain ⟨comparison, sum, term, rfl, replaces⟩ := isComparison
  obtain ⟨rightSum, rightTerm, rfl, rightReplaces⟩ := isSum
  refine ⟨fun right => truth (relation.holds (comparison (sum term)) right), rightSum, rightTerm,
    rfl, fun others => ?_⟩
  simp only [Formula.join, List.append_assoc, List.cons_append]
  rw [replaces, ← rightReplaces]
  rfl

variable (machine : Machine) {tokens rest : List Token}

theorem evaluates_of_primary {tree : Expression} (derived : Grammar.Primary tokens tree rest) :
    Evaluates (tree.row machine.meaning) (tree.value machine.symbols)
      (fun formula number => formula = ⟨number, []⟩) := by
  cases derived with
  | number => exact .inr ⟨_, _, rfl, rfl, rfl⟩
  | @identifier name _ _ line =>
      simp only [Expression.row, Expression.value, Machine.meaning]
      cases machine.symbols.get? name with
      | none => exact .inl ⟨_, rfl, rfl⟩
      | some value => exact .inr ⟨_, _, rfl, rfl, rfl⟩

theorem evaluates_of_unary {tree : Expression} (derived : Grammar.Unary tokens tree rest) :
    Evaluates (tree.row machine.meaning) (tree.value machine.symbols)
      (fun formula number => formula = ⟨number, []⟩) := by
  cases derived with
  | unsigned derived => exact evaluates_of_primary machine derived
  | @positive _ _ operand _ _ derived =>
      simp only [Expression.row, Expression.value]
      obtain ⟨diagnostic, made, found⟩ | ⟨formula, number, made, found, rfl⟩ :=
        evaluates_of_primary machine derived
      · exact .inl ⟨diagnostic, by rw [made]; rfl, found⟩
      · exact .inr ⟨_, _, by rw [made]; rfl, found, rfl⟩
  | negative derived =>
      simp only [Expression.row, Expression.value]
      obtain ⟨diagnostic, made, found⟩ | ⟨formula, number, made, found, rfl⟩ :=
        evaluates_of_primary machine derived
      · exact .inl ⟨diagnostic, by rw [made]; rfl, by rw [found]; rfl⟩
      · exact .inr ⟨_, _, by rw [made]; rfl, by rw [found]; rfl, rfl⟩

theorem evaluates_of_term {tree : Expression} (derived : Grammar.Term tokens tree rest) :
    Evaluates (tree.row machine.meaning) (tree.value machine.symbols) IsTerm := by
  induction derived with
  | first derived =>
      refine (evaluates_of_unary machine derived).imp fun formula number same => ?_
      subst same
      exact fun _ _ _ => rfl
  | further _ multiplicative derived induction =>
      exact induction.join (evaluates_of_unary machine derived)
        fun _ _ _ _ left right => left.join multiplicative right

theorem evaluates_of_sum {tree : Expression} (derived : Grammar.Sum tokens tree rest) :
    Evaluates (tree.row machine.meaning) (tree.value machine.symbols) IsSum := by
  induction derived with
  | first derived => exact (evaluates_of_term machine derived).imp fun _ _ => IsTerm.isSum
  | further _ additive derived induction =>
      exact induction.join (evaluates_of_term machine derived)
        fun _ _ _ _ left right => left.join additive right

private theorem evaluates_of_comparison {tree : Condition}
    (derived : Grammar.Comparison tokens tree rest) :
    Evaluates (tree.row machine.meaning) (tree.value machine.symbols) IsComparison := by
  induction derived with
  | first left right =>
      exact (evaluates_of_sum machine left).join (evaluates_of_sum machine right)
        fun _ _ _ _ left right => left.isComparison.join right
  | further _ right induction =>
      exact induction.join (evaluates_of_sum machine right)
        fun _ _ _ _ left right => left.join right

theorem IsComparison.value_eq {formula : Formula Float} {number : Float}
    (isComparison : IsComparison formula number) : formula.value = number := by
  obtain ⟨comparison, sum, term, rfl, replaces⟩ := isComparison
  have alone := replaces []
  rw [List.append_nil] at alone
  exact alone

/-- The value of an expression as it is read is that of its tree. -/
theorem value_of_sum {tree : Expression} (derived : Grammar.Sum tokens tree rest) :
    (tree.row machine.meaning).map value = tree.value machine.symbols := by
  obtain ⟨diagnostic, made, found⟩ | ⟨formula, number, made, found, isSum⟩ :=
    evaluates_of_sum machine derived
  · rw [made, found]
    rfl
  · rw [made, found, ← isSum.isComparison.value_eq]
    rfl

/-- A condition is met as it is read if that of its tree is. -/
theorem isMet_of_comparison {tree : Condition} (derived : Grammar.Comparison tokens tree rest) :
    (tree.row machine.meaning).map isMet = tree.isMet machine.symbols := by
  unfold Condition.isMet
  obtain ⟨diagnostic, made, found⟩ | ⟨formula, number, made, found, isComparison⟩ :=
    evaluates_of_comparison machine derived
  · rw [made, found]
    rfl
  · rw [made, found, ← isComparison.value_eq]
    rfl

end Formula

end TeenyBasic
