import TeenyBasic.Formula

/-!
# The value of a formula

Multiplication and division bind tighter than addition and subtraction, which bind tighter than
comparison, and every operator groups from the left.  A comparison yields one or zero, and that
outcome is the left side of the next comparison.  All numbers are doubles: a quotient by zero is
an infinity or no number at all, and nothing is ever compared successfully with the latter except
by `!=`.
-/

namespace TeenyBasic

def Arithmetic.apply : Arithmetic → Float → Float → Float
  | plus, left, right => left + right
  | minus, left, right => left - right
  | times, left, right => left * right
  | divide, left, right => left / right

def Relation.holds : Relation → Float → Float → Bool
  | equal, left, right => left == right
  | unequal, left, right => left != right
  | less, left, right => left < right
  | lessEqual, left, right => left ≤ right
  | greater, left, right => right < left
  | greaterEqual, left, right => right ≤ left

/-- The number that stands for the outcome of a comparison. -/
def truth (outcome : Bool) : Float :=
  if outcome then 1.0 else 0.0

namespace Formula

/-- The value of a row whose last term is `term`, where `sum` completes the sum that the term
belongs to and `comparison` completes the comparison that the sum belongs to. -/
def valueFrom (comparison sum : Float → Float) (term : Float) : List (Operator × Float) → Float
  | [] => comparison (sum term)
  | (.arithmetic .times, operand) :: rest =>
      valueFrom comparison sum (Arithmetic.times.apply term operand) rest
  | (.arithmetic .divide, operand) :: rest =>
      valueFrom comparison sum (Arithmetic.divide.apply term operand) rest
  | (.arithmetic .plus, operand) :: rest =>
      valueFrom comparison (Arithmetic.plus.apply (sum term)) operand rest
  | (.arithmetic .minus, operand) :: rest =>
      valueFrom comparison (Arithmetic.minus.apply (sum term)) operand rest
  | (.relation relation, operand) :: rest =>
      let left := comparison (sum term)
      valueFrom (fun right => truth (relation.holds left right)) id operand rest

def value (formula : Formula Float) : Float :=
  valueFrom id id formula.first formula.rest

/-- Whether a condition is met: its value is not zero. -/
def isMet (condition : Formula Float) : Bool :=
  condition.value != 0.0

end Formula

end TeenyBasic
