import TeenyBasic.Formula
import TeenyBasic.Proofs.Grammar

/-!
# Reading formulas by the grammar

A formula is read as a flat row, and the grammar makes a tree of the same tokens.  This module
proves that the two agree for every reader, whatever operands mean to it: tokens that the grammar
derives are read as the row of their tree (`expression_eq_row`, `condition_eq_row`), and tokens
that are read have a tree (`exists_sum_of_expression`, `exists_comparison_of_condition`).
-/

namespace TeenyBasic

variable {α : Type} {accepts : Operator → Bool} {meaning : Meaning α} {ending : Ending}

/-- Two rows with an operator between them. -/
def Formula.join (left : Formula α) (operator : Operator) (right : Formula α) : Formula α :=
  ⟨left.first, left.rest ++ (operator, right.first) :: right.rest⟩

/-- Joins two rows, unless one of them was refused. -/
def Formula.joinRows (left : Except Diagnostic (Formula α)) (operator : Operator)
    (right : Except Diagnostic (Formula α)) : Except Diagnostic (Formula α) :=
  match left, right with
  | .error diagnostic, _ => .error diagnostic
  | .ok _, .error diagnostic => .error diagnostic
  | .ok left, .ok right => .ok (left.join operator right)

/-- The row of a tree with what its operands mean.  It is refused at the first variable without a
meaning. -/
def Expression.row (meaning : Meaning α) : Expression → Except Diagnostic (Formula α)
  | number value => .ok ⟨meaning.number value, []⟩
  | read name line =>
      match meaning.lookup name with
      | some value => .ok ⟨value, []⟩
      | none => .error (.unassignedVariable name line)
  | positive operand =>
      (operand.row meaning).map fun row => ⟨meaning.positive row.first, row.rest⟩
  | negative operand =>
      (operand.row meaning).map fun row => ⟨meaning.negative row.first, row.rest⟩
  | binary operator left right =>
      Formula.joinRows (left.row meaning) (.arithmetic operator) (right.row meaning)

def Condition.row (meaning : Meaning α) : Condition → Except Diagnostic (Formula α)
  | compare relation left right =>
      Formula.joinRows (left.row meaning) (.relation relation) (right.row meaning)
  | chain relation left right =>
      Formula.joinRows (left.row meaning) (.relation relation) (right.row meaning)

namespace Formula

/-- Reading goes on behind a row, unless the row was refused. -/
def resume (accepts : Operator → Bool) (meaning : Meaning α) (ending : Ending)
    (row : Except Diagnostic (Formula α)) (tokens : List Token) :
    Except Diagnostic (Formula α × List Token) :=
  match row, operandsAfter accepts meaning ending tokens with
  | .error diagnostic, _ => .error diagnostic
  | .ok _, .error diagnostic => .error diagnostic
  | .ok row, .ok (others, last) => .ok (⟨row.first, row.rest ++ others⟩, last)

/-- No operator that `accepts` admits stands in front. -/
def Stops (accepts : Operator → Bool) (tokens : List Token) : Prop :=
  ∀ token rest operator, tokens = token :: rest → token.lexeme.operator? = some operator →
    accepts operator = false

theorem stops_of_operator?_eq_none {token : Token} {rest : List Token}
    (other : token.lexeme.operator? = none) : Stops accepts (token :: rest) := by
  rintro _ _ operator ⟨⟩ found
  simp [other] at found

theorem stops_keyword (word : Keyword) (text : String) (line : Int) (rest : List Token) :
    Stops accepts (⟨.keyword word, text, line⟩ :: rest) :=
  stops_of_operator?_eq_none rfl

theorem stops_newline {tokens rest : List Token} (ends : Grammar.Newline tokens rest) :
    Stops accepts tokens := by
  cases ends <;> exact stops_of_operator?_eq_none rfl

@[simp] theorem operandsAfter_of_stops {tokens : List Token} (stops : Stops accepts tokens) :
    operandsAfter accepts meaning ending tokens = .ok ([], tokens) := by
  cases tokens with
  | nil => rw [operandsAfter]
  | cons token rest =>
      rw [operandsAfter]
      cases found : token.lexeme.operator? with
      | none => rfl
      | some operator => simp [stops token rest operator rfl found]

theorem resume_of_stops {row : Except Diagnostic (Formula α)} {tokens : List Token}
    (stops : Stops accepts tokens) :
    resume accepts meaning ending row tokens = row.map (·, tokens) := by
  unfold resume
  rw [operandsAfter_of_stops stops]
  cases row with
  | error diagnostic => rfl
  | ok row => simp [Except.map]

/-- Behind an operator a whole row is read again. -/
theorem operandsAfter_operator {token : Token} {rest : List Token} {operator : Operator}
    (found : token.lexeme.operator? = some operator) (accepted : accepts operator = true) :
    operandsAfter accepts meaning ending (token :: rest) =
      (read accepts meaning ending rest).map fun result =>
        ((operator, result.1.first) :: result.1.rest, result.2) := by
  rw [operandsAfter, found]
  simp only [accepted, if_true]
  unfold read
  cases operand meaning ending rest with
  | error diagnostic => rfl
  | ok result =>
      obtain ⟨value, after⟩ := result
      simp only
      cases operandsAfter accepts meaning ending after with
      | error diagnostic => rfl
      | ok result => rfl

/-- Rows that are read one after the other, with an operator between them, are read as one. -/
theorem resume_join {left right : Except Diagnostic (Formula α)} {token : Token}
    {middle rest : List Token} {operator : Operator}
    (found : token.lexeme.operator? = some operator) (accepted : accepts operator = true)
    (readRight : read accepts meaning ending middle = resume accepts meaning ending right rest) :
    resume accepts meaning ending left (token :: middle) =
      resume accepts meaning ending (joinRows left operator right) rest := by
  unfold resume
  rw [operandsAfter_operator found accepted, readRight]
  unfold resume
  cases left with
  | error diagnostic => rfl
  | ok left =>
      cases right with
      | error diagnostic => rfl
      | ok right =>
          cases operandsAfter accepts meaning ending rest with
          | error diagnostic => rfl
          | ok result => simp [joinRows, join, Except.map]

theorem operand_of_primary {tokens rest : List Token} {expression : Expression} {sign : α → α}
    (derived : Grammar.Primary tokens expression rest) :
    primaryBehind meaning ending sign tokens =
      (expression.row meaning).map fun row => (sign row.first, rest) := by
  cases derived with
  | number => rfl
  | @identifier name =>
      simp only [primaryBehind, primary, Expression.row]
      cases meaning.lookup name <;> rfl

theorem rest_row_of_primary {tokens rest : List Token} {expression : Expression}
    {row : Formula α} (derived : Grammar.Primary tokens expression rest)
    (made : expression.row meaning = .ok row) : row.rest = [] := by
  cases derived with
  | number =>
      simp only [Expression.row, Except.ok.injEq] at made
      rw [← made]
  | @identifier name =>
      simp only [Expression.row] at made
      cases found : meaning.lookup name with
      | none => simp [found] at made
      | some value =>
          simp only [found, Except.ok.injEq] at made
          rw [← made]

private theorem operand_of_unary {tokens rest : List Token} {expression : Expression}
    (derived : Grammar.Unary tokens expression rest) :
    operand meaning ending tokens =
      (expression.row meaning).map fun row => (row.first, rest) := by
  cases derived with
  | unsigned derived =>
      have taken : primaryBehind meaning ending id tokens = _ := operand_of_primary derived
      cases derived <;> exact taken
  | positive derived =>
      simp only [operand, sign?, operand_of_primary derived, Expression.row]
      cases Expression.row meaning _ <;> rfl
  | negative derived =>
      simp only [operand, sign?, operand_of_primary derived, Expression.row]
      cases Expression.row meaning _ <;> rfl

private theorem rest_row_of_unary {tokens rest : List Token} {expression : Expression}
    {row : Formula α} (derived : Grammar.Unary tokens expression rest)
    (made : expression.row meaning = .ok row) : row.rest = [] := by
  cases derived with
  | unsigned derived => exact rest_row_of_primary derived made
  | @positive _ _ inner _ _ derived | @negative _ _ inner _ _ derived =>
      simp only [Expression.row] at made
      cases found : inner.row meaning with
      | error diagnostic => simp [found, Except.map] at made
      | ok innerRow =>
          simp only [found, Except.map, Except.ok.injEq] at made
          subst made
          have bare : innerRow.rest = [] := rest_row_of_primary derived found
          exact bare

theorem read_of_unary {tokens rest : List Token} {expression : Expression}
    (derived : Grammar.Unary tokens expression rest) :
    read accepts meaning ending tokens =
      resume accepts meaning ending (expression.row meaning) rest := by
  unfold read resume
  rw [operand_of_unary derived]
  cases made : expression.row meaning with
  | error diagnostic => rfl
  | ok row =>
      have bare := rest_row_of_unary derived made
      simp only [Except.map]
      cases operandsAfter accepts meaning ending rest with
      | error diagnostic => rfl
      | ok result => simp [bare]

theorem read_of_term {tokens rest : List Token} {expression : Expression}
    (arithmetic : ∀ operator, accepts (.arithmetic operator) = true)
    (derived : Grammar.Term tokens expression rest) :
    read accepts meaning ending tokens =
      resume accepts meaning ending (expression.row meaning) rest := by
  induction derived with
  | first derived => exact read_of_unary derived
  | further _ _ derived induction =>
      rw [induction, resume_join rfl (arithmetic _) (read_of_unary derived)]
      rfl

theorem read_of_sum {tokens rest : List Token} {expression : Expression}
    (arithmetic : ∀ operator, accepts (.arithmetic operator) = true)
    (derived : Grammar.Sum tokens expression rest) :
    read accepts meaning ending tokens =
      resume accepts meaning ending (expression.row meaning) rest := by
  induction derived with
  | first derived => exact read_of_term arithmetic derived
  | further _ _ derived induction =>
      rw [induction, resume_join rfl (arithmetic _) (read_of_term arithmetic derived)]
      rfl

private theorem read_of_comparison {tokens rest : List Token} {condition : Condition}
    (everything : ∀ operator, accepts operator = true)
    (derived : Grammar.Comparison tokens condition rest) :
    read accepts meaning ending tokens =
      resume accepts meaning ending (condition.row meaning) rest := by
  have arithmetic : ∀ operator, accepts (.arithmetic operator) = true :=
    fun _ => everything _
  induction derived with
  | first left right =>
      rw [read_of_sum arithmetic left,
        resume_join rfl (everything _) (read_of_sum arithmetic right)]
      rfl
  | further _ right induction =>
      rw [induction, resume_join rfl (everything _) (read_of_sum arithmetic right)]
      rfl

/-- An expression of the grammar is read as the row of its tree. -/
theorem expression_eq_row {tokens rest : List Token} {tree : Expression}
    (derived : Grammar.Sum tokens tree rest) (stops : Stops Operator.isArithmetic rest) :
    expression meaning ending tokens = (tree.row meaning).map (·, rest) := by
  unfold expression
  rw [read_of_sum (fun _ => rfl) derived, resume_of_stops stops]

private theorem compares_join (left : Formula α) (relation : Relation) (right : Formula α) :
    (left.join (.relation relation) right).compares = true := by
  simp [compares, join, Operator.isArithmetic]

theorem compares_joinRows {left right : Except Diagnostic (Formula α)} {relation : Relation}
    {row : Formula α} (made : joinRows left (.relation relation) right = .ok row) :
    row.compares = true := by
  unfold joinRows at made
  split at made
  · simp at made
  · simp at made
  · simp only [Except.ok.injEq] at made
    rw [← made]
    exact compares_join _ _ _

private theorem compares_row {tree : Condition} {row : Formula α}
    (made : tree.row meaning = .ok row) :
    row.compares = true := by
  cases tree with
  | compare relation left right => exact compares_joinRows made
  | chain relation left right => exact compares_joinRows made

/-- A comparison of the grammar is read as the row of its tree. -/
theorem condition_eq_row {tokens rest : List Token} {tree : Condition}
    (derived : Grammar.Comparison tokens tree rest) (stops : Stops (fun _ => true) rest) :
    condition meaning ending tokens = (tree.row meaning).map (·, rest) := by
  unfold condition
  rw [read_of_comparison (fun _ => rfl) derived, resume_of_stops stops]
  cases made : tree.row meaning with
  | error diagnostic => rfl
  | ok row => simp [Except.map, compares_row made]

/-- A sum has been read up to `rest`, and its last term may go on there. -/
inductive OpenSum : List Token → List Token → Prop
  | first {tokens rest term} : Grammar.Term tokens term rest → OpenSum tokens rest
  | further {tokens middle rest left operator term text line} :
      Grammar.Sum tokens left (⟨.arithmetic operator, text, line⟩ :: middle) →
      operator.isMultiplicative = false →
      Grammar.Term middle term rest →
      OpenSum tokens rest

theorem OpenSum.close {tokens rest : List Token} (reading : OpenSum tokens rest) :
    ∃ tree, Grammar.Sum tokens tree rest := by
  cases reading with
  | first derived => exact ⟨_, .first derived⟩
  | further left additive derived => exact ⟨_, .further left additive derived⟩

theorem OpenSum.step {tokens middle rest : List Token} {operator : Arithmetic}
    {tree : Expression} {text : String} {line : Int}
    (reading : OpenSum tokens (⟨.arithmetic operator, text, line⟩ :: middle))
    (derived : Grammar.Unary middle tree rest) : OpenSum tokens rest := by
  cases binds : operator.isMultiplicative with
  | true =>
      -- the last term goes on; with `+` and `-` it is closed and another begins
      cases reading with
      | first term => exact .first (.further term binds derived)
      | further left additive term => exact .further left additive (.further term binds derived)
  | false =>
      obtain ⟨left, sum⟩ := reading.close
      exact .further sum binds (.first derived)

/-- A condition has been read up to `rest`, with or without a comparison, and its last term may
go on there. -/
inductive OpenComparison : Bool → List Token → List Token → Prop
  | none {tokens rest} : OpenSum tokens rest → OpenComparison false tokens rest
  | first {tokens middle rest left relation text line} :
      Grammar.Sum tokens left (⟨.relation relation, text, line⟩ :: middle) →
      OpenSum middle rest →
      OpenComparison true tokens rest
  | further {tokens middle rest left relation text line} :
      Grammar.Comparison tokens left (⟨.relation relation, text, line⟩ :: middle) →
      OpenSum middle rest →
      OpenComparison true tokens rest

theorem OpenComparison.close {tokens rest : List Token}
    (reading : OpenComparison true tokens rest) :
    ∃ tree, Grammar.Comparison tokens tree rest := by
  cases reading with
  | first left last =>
      obtain ⟨right, sum⟩ := last.close
      exact ⟨_, .first left sum⟩
  | further left last =>
      obtain ⟨right, sum⟩ := last.close
      exact ⟨_, .further left sum⟩

theorem OpenComparison.step {compared : Bool} {tokens middle rest : List Token} {token : Token}
    {operator : Operator} {tree : Expression}
    (reading : OpenComparison compared tokens (token :: middle))
    (found : token.lexeme.operator? = some operator) (derived : Grammar.Unary middle tree rest) :
    OpenComparison (compared || !operator.isArithmetic) tokens rest := by
  obtain ⟨lexeme, text, line⟩ := token
  cases lexeme <;> simp only [Lexeme.operator?, Option.some.injEq, reduceCtorEq] at found
  case arithmetic operator' =>
      subst found
      simp only [Operator.isArithmetic, Bool.not_true, Bool.or_false]
      cases reading with
      | none sum => exact .none (sum.step derived)
      | first left sum => exact .first left (sum.step derived)
      | further left sum => exact .further left (sum.step derived)
  case relation relation =>
      subst found
      simp only [Operator.isArithmetic, Bool.not_false, Bool.or_true]
      cases reading with
      | none sum =>
          obtain ⟨left, sum⟩ := sum.close
          exact .first sum (.first (.first derived))
      | first left sum =>
          obtain ⟨right, sum⟩ := sum.close
          exact .further (.first left sum) (.first (.first derived))
      | further left sum =>
          obtain ⟨right, sum⟩ := sum.close
          exact .further (.further left sum) (.first (.first derived))

theorem exists_primary_of_primaryBehind {tokens rest : List Token} {sign : α → α} {value : α}
    (taken : primaryBehind meaning ending sign tokens = .ok (value, rest)) :
    ∃ tree, Grammar.Primary tokens tree rest := by
  unfold primaryBehind at taken
  split at taken
  · simp at taken
  · next token tail =>
    split at taken
    · next found =>
      simp only [Except.ok.injEq, Prod.mk.injEq] at taken
      obtain ⟨-, rfl⟩ := taken
      obtain ⟨lexeme, text, line⟩ := token
      unfold primary at found
      split at found
      · next shape =>
        obtain rfl : lexeme = _ := shape
        exact ⟨_, .number⟩
      · next shape =>
        obtain rfl : lexeme = _ := shape
        exact ⟨_, .identifier⟩
      · simp at found
    · simp at taken

theorem exists_unary_of_operand {tokens rest : List Token} {value : α}
    (taken : operand meaning ending tokens = .ok (value, rest)) :
    ∃ tree, Grammar.Unary tokens tree rest := by
  unfold operand at taken
  split at taken
  · simp at taken
  · next token tail =>
    obtain ⟨lexeme, text, line⟩ := token
    split at taken
    · next sign signed =>
      obtain ⟨tree, derived⟩ := exists_primary_of_primaryBehind taken
      unfold sign? at signed
      split at signed
      · next shape =>
        obtain rfl : lexeme = _ := shape
        exact ⟨_, .positive derived⟩
      · next shape =>
        obtain rfl : lexeme = _ := shape
        exact ⟨_, .negative derived⟩
      · simp at signed
    · obtain ⟨tree, derived⟩ := exists_primary_of_primaryBehind taken
      exact ⟨_, .unsigned derived⟩

private theorem openComparison_of_operandsAfter {compared : Bool} {tokens middle rest : List Token}
    {others : List (Operator × α)} (reading : OpenComparison compared tokens middle)
    (taken : operandsAfter accepts meaning ending middle = .ok (others, rest)) :
    OpenComparison (compared || others.any fun step => !step.1.isArithmetic) tokens rest := by
  fun_induction operandsAfter accepts meaning ending middle generalizing compared others rest with
  | case1 => simp_all
  | case2 => simp_all
  | case3 => simp at taken
  | case4 => simp at taken
  | case5 token tail operator found _ value after operandTaken others' last _ induction =>
      simp only [Except.ok.injEq, Prod.mk.injEq] at taken
      obtain ⟨rfl, rfl⟩ := taken
      obtain ⟨tree, derived⟩ := exists_unary_of_operand operandTaken
      have further := induction (reading.step found derived) ‹_›
      simpa [Bool.or_assoc] using further
  | case6 => simp_all

theorem openComparison_of_read {tokens rest : List Token} {formula : Formula α}
    (taken : read accepts meaning ending tokens = .ok (formula, rest)) :
    OpenComparison formula.compares tokens rest := by
  unfold read at taken
  split at taken
  · simp at taken
  · next first middle found =>
    split at taken
    · simp at taken
    · next others last following =>
      simp only [Except.ok.injEq, Prod.mk.injEq] at taken
      obtain ⟨rfl, rfl⟩ := taken
      obtain ⟨tree, derived⟩ := exists_unary_of_operand found
      simpa [compares] using
        openComparison_of_operandsAfter (.none (.first (.first derived))) following

private theorem operandsAfter_accepted {tokens rest : List Token} {others : List (Operator × α)}
    (taken : operandsAfter accepts meaning ending tokens = .ok (others, rest)) :
    ∀ step ∈ others, accepts step.1 = true := by
  fun_induction operandsAfter accepts meaning ending tokens generalizing others rest with
  | case1 => simp_all
  | case2 => simp_all
  | case3 => simp at taken
  | case4 => simp at taken
  | case5 token tail operator found accepted value after operandTaken others' last _ induction =>
      simp only [Except.ok.injEq, Prod.mk.injEq] at taken
      obtain ⟨rfl, -⟩ := taken
      simpa [accepted] using induction ‹_›
  | case6 => simp_all

theorem compares_eq_false_of_expression {tokens rest : List Token} {formula : Formula α}
    (taken : expression meaning ending tokens = .ok (formula, rest)) :
    formula.compares = false := by
  unfold expression read at taken
  split at taken
  · simp at taken
  · split at taken
    · simp at taken
    · next following =>
      simp only [Except.ok.injEq, Prod.mk.injEq] at taken
      obtain ⟨rfl, -⟩ := taken
      have accepted := operandsAfter_accepted following
      simpa [compares] using accepted

/-- What is read as an expression is one of the grammar. -/
theorem exists_sum_of_expression {tokens rest : List Token} {formula : Formula α}
    (taken : expression meaning ending tokens = .ok (formula, rest)) :
    ∃ tree, Grammar.Sum tokens tree rest := by
  have reading := openComparison_of_read taken
  rw [compares_eq_false_of_expression taken] at reading
  cases reading with
  | none sum => exact sum.close

/-- What is read as a condition is a comparison of the grammar. -/
theorem exists_comparison_of_condition {tokens rest : List Token} {formula : Formula α}
    (taken : condition meaning ending tokens = .ok (formula, rest)) :
    ∃ tree, Grammar.Comparison tokens tree rest := by
  unfold condition at taken
  split at taken
  · simp at taken
  · next found middle reading =>
    split at taken
    · next compared =>
      simp only [Except.ok.injEq, Prod.mk.injEq] at taken
      obtain ⟨rfl, rfl⟩ := taken
      have read := openComparison_of_read reading
      rw [compared] at read
      exact read.close
    · simp at taken

end Formula

end TeenyBasic
