import TeenyBasic.Arithmetic
import TeenyBasic.Number.Entered
import TeenyBasic.Number.Written
import TeenyBasic.Proofs.SyntaxTree
import TeenyBasic.Symbols
import TeenyBasic.Text.Lines

/-!
# What a tree does

The meaning of a program, told along its tree.  A list of statements runs to an `Exit`: it comes
to its end, it jumps, or it fails.  A body that jumps or fails takes the blocks around it with it.
A whole program goes on from the label that a jump names, among the statements that stand in no
block.

Nothing here speaks of tokens, cursors or tables.
-/

namespace TeenyBasic

/-- What a program works on: its variables, what can still be read and what was printed. -/
structure World where
  symbols : Symbols
  input : List Char
  output : String

def World.start (input : List Char) : World :=
  ⟨.empty, input, ""⟩

def World.print (world : World) (text : String) : World :=
  { world with output := world.output ++ (text ++ "\n") }

/-- Two values joined by an operation, unless one of them is missing; the left one comes first. -/
def joinValues (operation : Float → Float → Float) (left right : Except Diagnostic Float) :
    Except Diagnostic Float :=
  match left, right with
  | .error diagnostic, _ => .error diagnostic
  | .ok _, .error diagnostic => .error diagnostic
  | .ok left, .ok right => .ok (operation left right)

/-- The value of an expression.  A variable without a value has none. -/
def Expression.value (symbols : Symbols) : Expression → Except Diagnostic Float
  | number value => .ok value
  | read name line =>
      match symbols.get? name with
      | some value => .ok value
      | none => .error (.unassignedVariable name line)
  | positive operand => operand.value symbols
  | negative operand => (operand.value symbols).map Float.neg
  | binary operator left right =>
      joinValues operator.apply (left.value symbols) (right.value symbols)

/-- The value of a condition, one or zero.  That of a chain is compared with the next value. -/
def Condition.value (symbols : Symbols) : Condition → Except Diagnostic Float
  | compare relation left right =>
      joinValues (fun left right => truth (relation.holds left right)) (left.value symbols)
        (right.value symbols)
  | chain relation left right =>
      joinValues (fun left right => truth (relation.holds left right)) (left.value symbols)
        (right.value symbols)

def Condition.isMet (symbols : Symbols) (condition : Condition) : Except Diagnostic Bool :=
  (condition.value symbols).map (· != 0.0)

/-- The world after an action, and what went wrong.  An assignment declares its variable before it
looks at the value. -/
def Action.perform (world : World) : Action → World × Option Diagnostic
  | printText content => (world.print content, none)
  | printValue value =>
      match value.value world.symbols with
      | .ok number => (world.print (Number.written number), none)
      | .error diagnostic => (world, some diagnostic)
  | assign name value =>
      let symbols := world.symbols.declare name
      match value.value symbols with
      | .ok number => ({ world with symbols := symbols.set name number }, none)
      | .error diagnostic => ({ world with symbols := symbols }, some diagnostic)
  | input name =>
      let number := Number.entered (Text.firstLine world.input)
      ({ world with
          symbols := world.symbols.set name number
          input := Text.afterFirstLine world.input }, none)

/-- How a list of statements ends. -/
inductive Exit
  | finished
  | jumped (name : String)
  | failed (diagnostic : Diagnostic)

/-- A list of statements runs from one world to another. -/
inductive Runs : List Statement → World → Exit → World → Prop
  | nil {world} : Runs [] world .finished world
  | act {action rest world after final exit} :
      Action.perform world action = (after, none) →
      Runs rest after exit final →
      Runs (.action action :: rest) world exit final
  | actFails {action rest world after diagnostic} :
      Action.perform world action = (after, some diagnostic) →
      Runs (.action action :: rest) world (.failed diagnostic) after
  | label {name line rest world final exit} :
      Runs rest world exit final →
      Runs (.label name line :: rest) world exit final
  | goto {name line rest world} : Runs (.goto name line :: rest) world (.jumped name) world
  | conditionFails {kind condition body rest world diagnostic} :
      condition.isMet world.symbols = .error diagnostic →
      Runs (.block kind condition body :: rest) world (.failed diagnostic) world
  | skip {kind condition body rest world final exit} :
      condition.isMet world.symbols = .ok false →
      Runs rest world exit final →
      Runs (.block kind condition body :: rest) world exit final
  | once {condition body rest world after final exit} :
      condition.isMet world.symbols = .ok true →
      Runs body world .finished after →
      Runs rest after exit final →
      Runs (.block .conditional condition body :: rest) world exit final
  | again {condition body rest world after final exit} :
      condition.isMet world.symbols = .ok true →
      Runs body world .finished after →
      Runs (.block .loop condition body :: rest) after exit final →
      Runs (.block .loop condition body :: rest) world exit final
  | leave {kind condition body rest world final exit} :
      condition.isMet world.symbols = .ok true →
      Runs body world exit final →
      exit ≠ .finished →
      Runs (.block kind condition body :: rest) world exit final

/-- The statements from a label on, among those that stand in no block. -/
def Statement.fromLabel? (name : String) : List Statement → Option (List Statement)
  | [] => none
  | .label other line :: rest =>
      if other = name then some (.label other line :: rest) else fromLabel? name rest
  | _ :: rest => fromLabel? name rest

/-- A program that has reached a place in no block runs to its end: the fault that ended it, if one
did, and the last world. -/
inductive RunsToEnd (program : List Statement) :
    List Statement → World → Option Diagnostic → World → Prop
  | finished {here world final} :
      Runs here world .finished final → RunsToEnd program here world none final
  | failed {here world diagnostic final} :
      Runs here world (.failed diagnostic) final →
      RunsToEnd program here world (some diagnostic) final
  | jumped {here there world middle final fault name} :
      Runs here world (.jumped name) middle →
      Statement.fromLabel? name program = some there →
      RunsToEnd program there middle fault final →
      RunsToEnd program here world fault final

/-- The fault of reading a variable that has no value. -/
def Diagnostic.IsUnassigned (diagnostic : Diagnostic) : Prop :=
  ∃ name line, diagnostic = .unassignedVariable name line

theorem isUnassigned_of_joinValues {operation : Float → Float → Float}
    {left right : Except Diagnostic Float} {diagnostic : Diagnostic}
    (leftFault : left = .error diagnostic → diagnostic.IsUnassigned)
    (rightFault : right = .error diagnostic → diagnostic.IsUnassigned)
    (fails : joinValues operation left right = .error diagnostic) : diagnostic.IsUnassigned := by
  unfold joinValues at fails
  split at fails
  · exact leftFault (by simpa using fails)
  · exact rightFault (by simpa using fails)
  · simp at fails

theorem Expression.isUnassigned_of_value {symbols : Symbols} {expression : Expression}
    {diagnostic : Diagnostic} (fails : expression.value symbols = .error diagnostic) :
    diagnostic.IsUnassigned := by
  induction expression with
  | number literal => simp [value] at fails
  | read name line =>
      simp only [value] at fails
      split at fails
      · simp at fails
      · exact ⟨name, line, (Except.error.inj fails).symm⟩
  | positive operand induction => exact induction fails
  | negative operand induction =>
      simp only [value] at fails
      cases inner : operand.value symbols with
      | error other =>
          rw [inner] at fails
          exact induction (inner.trans fails)
      | ok number => simp [inner, Except.map] at fails
  | binary operator left right leftInduction rightInduction =>
      exact isUnassigned_of_joinValues leftInduction rightInduction fails

theorem Condition.isUnassigned_of_value {symbols : Symbols} {condition : Condition}
    {diagnostic : Diagnostic} (fails : condition.value symbols = .error diagnostic) :
    diagnostic.IsUnassigned := by
  induction condition with
  | compare relation left right =>
      exact isUnassigned_of_joinValues Expression.isUnassigned_of_value
        Expression.isUnassigned_of_value fails
  | chain relation left right induction =>
      exact isUnassigned_of_joinValues induction Expression.isUnassigned_of_value fails

theorem Condition.isUnassigned_of_isMet {symbols : Symbols} {condition : Condition}
    {diagnostic : Diagnostic} (fails : condition.isMet symbols = .error diagnostic) :
    diagnostic.IsUnassigned := by
  unfold isMet at fails
  cases found : condition.value symbols with
  | error other =>
      simp only [found, Except.map, Except.error.injEq] at fails
      exact isUnassigned_of_value (fails ▸ found)
  | ok number => simp [found, Except.map] at fails

theorem Action.isUnassigned_of_perform {world after : World} {action : Action}
    {diagnostic : Diagnostic} (fails : action.perform world = (after, some diagnostic)) :
    diagnostic.IsUnassigned := by
  cases action with
  | printText content => simp [perform] at fails
  | printValue value =>
      simp only [perform] at fails
      split at fails
      · simp at fails
      · next found =>
        simp only [Prod.mk.injEq, Option.some.injEq] at fails
        exact Expression.isUnassigned_of_value (fails.2 ▸ found)
  | assign name value =>
      simp only [perform] at fails
      split at fails
      · simp at fails
      · next found =>
        simp only [Prod.mk.injEq, Option.some.injEq] at fails
        exact Expression.isUnassigned_of_value (fails.2 ▸ found)
  | input name => simp [perform] at fails

end TeenyBasic
