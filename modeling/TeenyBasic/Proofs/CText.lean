import TeenyBasic.Number.Written
import TeenyBasic.Proofs.Grammar

/-!
# The C text of a tree

What a tree reads in C, part by part: the text of a whole is put together from the texts of its
parts, and nothing else is looked at.  Lines play no role in it, so trees that differ in
nothing but their lines have the same text (`ofTree_unplaced`).
-/

namespace TeenyBasic

/-- An expression in C.  The right operand of `*` and `/` is made a double. -/
def Expression.toC : Expression → String
  | number value => Number.written value
  | read name _ => name
  | positive operand => "+" ++ operand.toC
  | negative operand => "-" ++ operand.toC
  | binary operator left right =>
      left.toC ++ " " ++ operator.text ++ " " ++
        (if operator.isMultiplicative then "(double)" else "") ++ right.toC

/-- A condition in C, its comparisons one after the other. -/
def Condition.toC : Condition → String
  | compare relation left right => left.toC ++ " " ++ relation.text ++ " " ++ right.toC
  | chain relation left right => left.toC ++ " " ++ relation.text ++ " " ++ right.toC

def CText.line (code : String) : String :=
  code ++ "\n"

/-- An action in C.  Numbers are printed with the given number of decimals. -/
def Action.toC (precision : Int) : Action → String
  | printText content => CText.line ("printf(\"" ++ content ++ "\\n\");")
  | printValue value =>
      CText.line ("printf(\"%." ++ toString precision ++ "f\\n\", (float)(" ++ value.toC ++ "));")
  | assign name value => CText.line (name ++ " = " ++ value.toC ++ ";")
  | input name =>
      CText.line ("if(1 != scanf(\"%f\", &" ++ name ++ ")) \x7b") ++
        CText.line (name ++ " = 0;") ++ CText.line "scanf(\"%*s\");" ++ CText.line "\x7d"

namespace Statement

mutual

def toC (precision : Int) : Statement → String
  | .action simple => simple.toC precision
  | .label name _ => CText.line (name ++ ":;")
  | .goto name _ => CText.line ("goto " ++ name ++ ";")
  | .block .conditional condition body =>
      CText.line ("if (" ++ condition.toC ++ ") \x7b") ++ allToC precision body ++
        CText.line "\x7d"
  | .block .loop condition body =>
      CText.line ("while (" ++ condition.toC ++ ") \x7b") ++ allToC precision body ++
        CText.line "\x7d"

def allToC (precision : Int) : List Statement → String
  | [] => ""
  | statement :: rest => statement.toC precision ++ allToC precision rest

end

end Statement

/-- The assigned variables among names, each once, in the order of their first assignment. -/
def Naming.targets (namings : List Naming) : List String :=
  (namings.filterMap Naming.target?).eraseDups

namespace Naming

@[simp] theorem mem_targets {namings : List Naming} {name : String} :
    name ∈ targets namings ↔ .assigned name ∈ namings := by
  rw [targets, List.mem_eraseDups, List.mem_filterMap]
  constructor
  · rintro ⟨naming, member, found⟩
    cases naming <;> simp [target?] at found
    exact found ▸ member
  · exact fun member => ⟨_, member, rfl⟩

@[simp] theorem targets_append_other {namings : List Naming} {naming : Naming}
    (other : naming.target? = none) : targets (namings ++ [naming]) = targets namings := by
  simp [targets, List.filterMap_cons_none other]

@[simp] theorem targets_append_assigned (namings : List Naming) (name : String) :
    targets (namings ++ [.assigned name]) =
      if .assigned name ∈ namings then targets namings else targets namings ++ [name] := by
  have known : name ∈ namings.filterMap target? ↔ Naming.assigned name ∈ namings := by
    rw [← mem_targets, targets, List.mem_eraseDups]
  have split : targets (namings ++ [.assigned name]) =
      targets namings ++ ([name].removeAll (namings.filterMap target?)).eraseDups := by
    rw [targets, List.filterMap_append, List.eraseDups_append]
    rfl
  rw [split]
  generalize namings.filterMap target? = names at known
  by_cases member : name ∈ names
  · simp [List.removeAll, member, known.mp member]
  · simp [List.removeAll, member, mt known.mpr member, List.eraseDups_cons]

end Naming

namespace CText

def declaration (name : String) : String :=
  line ("float " ++ name ++ ";")

/-- The declarations of the variables that are assigned among names. -/
def declarations (namings : List Naming) : String :=
  String.join ((Naming.targets namings).map declaration)

def preamble : String :=
  line "#include <stdio.h>" ++ line "int main(void) \x7b"

/-- A program in C: its variables are declared first, in the order of their first assignment. -/
def ofTree (precision : Int) (tree : List Statement) : String :=
  preamble ++ declarations (Statement.namingsOf tree) ++ Statement.allToC precision tree ++
    line "return 0;" ++ line "\x7d"

end CText

@[simp] theorem Expression.toC_unplaced (expression : Expression) :
    expression.unplaced.toC = expression.toC := by
  induction expression with
  | number value => rfl
  | read name line => rfl
  | positive operand induction => simp [unplaced, toC, induction]
  | negative operand induction => simp [unplaced, toC, induction]
  | binary operator left right leftInduction rightInduction =>
      simp [unplaced, toC, leftInduction, rightInduction]

@[simp] theorem Expression.namings_unplaced (expression : Expression) :
    expression.unplaced.namings = expression.namings := by
  induction expression with
  | number value => rfl
  | read name line => rfl
  | positive operand induction => exact induction
  | negative operand induction => exact induction
  | binary operator left right leftInduction rightInduction =>
      simp [unplaced, namings, leftInduction, rightInduction]

@[simp] theorem Condition.toC_unplaced (condition : Condition) :
    condition.unplaced.toC = condition.toC := by
  induction condition with
  | compare relation left right => simp [unplaced, toC, Expression.toC_unplaced]
  | chain relation left right induction =>
      simp [unplaced, toC, induction, Expression.toC_unplaced]

@[simp] theorem Condition.namings_unplaced (condition : Condition) :
    condition.unplaced.namings = condition.namings := by
  induction condition with
  | compare relation left right => simp [unplaced, namings, Expression.namings_unplaced]
  | chain relation left right induction =>
      simp [unplaced, namings, induction, Expression.namings_unplaced]

@[simp] theorem Action.toC_unplaced (precision : Int) (action : Action) :
    action.unplaced.toC precision = action.toC precision := by
  cases action with
  | printText content => rfl
  | printValue value => simp only [unplaced, toC, Expression.toC_unplaced]
  | assign name value => simp only [unplaced, toC, Expression.toC_unplaced]
  | input name => rfl

@[simp] theorem Action.namings_unplaced (action : Action) :
    action.unplaced.namings = action.namings := by
  cases action <;> simp [unplaced, namings, Expression.namings_unplaced]

namespace Statement

mutual

@[simp] theorem toC_unplaced (precision : Int) (statement : Statement) :
    statement.unplaced.toC precision = statement.toC precision := by
  cases statement with
  | action simple => exact simple.toC_unplaced precision
  | label name line => rfl
  | goto name line => rfl
  | block kind condition body =>
      cases kind <;>
        simp [unplaced, toC, condition.toC_unplaced, allToC_unplacedAll precision body]

@[simp] theorem allToC_unplacedAll (precision : Int) (statements : List Statement) :
    allToC precision (unplacedAll statements) = allToC precision statements := by
  cases statements with
  | nil => rfl
  | cons statement rest =>
      simp [unplacedAll, allToC, toC_unplaced precision statement,
        allToC_unplacedAll precision rest]

end

mutual

@[simp] theorem namings_unplaced (statement : Statement) :
    statement.unplaced.namings = statement.namings := by
  cases statement with
  | action simple => exact simple.namings_unplaced
  | label name line => rfl
  | goto name line => rfl
  | block kind condition body =>
      simp [unplaced, namings, condition.namings_unplaced, namingsOf_unplacedAll body]

@[simp] theorem namingsOf_unplacedAll (statements : List Statement) :
    namingsOf (unplacedAll statements) = namingsOf statements := by
  cases statements with
  | nil => rfl
  | cons statement rest =>
      simp [unplacedAll, namingsOf, namings_unplaced statement, namingsOf_unplacedAll rest]

end

end Statement

/-- The C text of a tree does not depend on lines. -/
@[simp] theorem CText.ofTree_unplaced (precision : Int) (tree : List Statement) :
    ofTree precision (Statement.unplacedAll tree) = ofTree precision tree := by
  unfold ofTree
  rw [Statement.allToC_unplacedAll, Statement.namingsOf_unplacedAll]

end TeenyBasic
