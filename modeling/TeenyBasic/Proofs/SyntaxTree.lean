import TeenyBasic.Block

/-!
# Syntax trees

What a program says, apart from how it is laid out: a list of statements, where a block holds a
list of statements again.  An expression is a tree whose operators have found their operands.
Names keep the line on which they stand, because messages speak about it; `unplaced` forgets the
lines.

The names of a program in the order in which they are written, each with the part it plays, are
its `Naming`s.
-/

namespace TeenyBasic

inductive Expression
  | number (value : Float)
  | read (name : String) (line : Int)
  | positive (operand : Expression)
  | negative (operand : Expression)
  | binary (operator : Arithmetic) (left right : Expression)

/-- A comparison of two values, or of the outcome of a comparison with one more value. -/
inductive Condition
  | compare (relation : Relation) (left right : Expression)
  | chain (relation : Relation) (left : Condition) (right : Expression)

/-- A statement after which the next one is executed. -/
inductive Action
  | printText (content : String)
  | printValue (value : Expression)
  | assign (name : String) (value : Expression)
  | input (name : String)

inductive Statement
  | action (simple : Action)
  | label (name : String) (line : Int)
  | goto (name : String) (line : Int)
  | block (kind : Block) (condition : Condition) (body : List Statement)

/-- A block around a place in a program, with the statements that follow the block. -/
structure Enclosing where
  block : Block
  after : List Statement

/-- A name and the part it plays where it stands. -/
inductive Naming
  | assigned (name : String)
  | read (name : String)
  | declared (name : String)
  | jumped (name : String)
  deriving DecidableEq, Repr

def Naming.target? : Naming → Option String
  | assigned name => some name
  | _ => none

def Naming.label? : Naming → Option String
  | declared name => some name
  | _ => none

def Expression.namings : Expression → List Naming
  | number _ => []
  | read name _ => [.read name]
  | positive operand => operand.namings
  | negative operand => operand.namings
  | binary _ left right => left.namings ++ right.namings

def Condition.namings : Condition → List Naming
  | compare _ left right => left.namings ++ right.namings
  | chain _ left right => left.namings ++ right.namings

/-- The names of an action: the target of an assignment is written before its value. -/
def Action.namings : Action → List Naming
  | printText _ => []
  | printValue value => value.namings
  | assign name value => .assigned name :: value.namings
  | input name => [.assigned name]

namespace Statement

mutual

def namings : Statement → List Naming
  | .action simple => simple.namings
  | .label name _ => [.declared name]
  | .goto name _ => [.jumped name]
  | .block _ condition body => condition.namings ++ namingsOf body

def namingsOf : List Statement → List Naming
  | [] => []
  | statement :: rest => statement.namings ++ namingsOf rest

end

/-- The labels that a list of statements declares, inside blocks and outside. -/
def labelsOf (statements : List Statement) : List String :=
  (namingsOf statements).filterMap Naming.label?

/-- The labels that stand inside the blocks of a list of statements. -/
def nestedLabels : List Statement → List String
  | [] => []
  | .block _ _ body :: rest => labelsOf body ++ nestedLabels rest
  | _ :: rest => nestedLabels rest

end Statement

def Expression.unplaced : Expression → Expression
  | number value => .number value
  | read name _ => .read name 0
  | positive operand => .positive operand.unplaced
  | negative operand => .negative operand.unplaced
  | binary operator left right => .binary operator left.unplaced right.unplaced

def Condition.unplaced : Condition → Condition
  | compare relation left right => .compare relation left.unplaced right.unplaced
  | chain relation left right => .chain relation left.unplaced right.unplaced

def Action.unplaced : Action → Action
  | printText content => .printText content
  | printValue value => .printValue value.unplaced
  | assign name value => .assign name value.unplaced
  | input name => .input name

namespace Statement

mutual

def unplaced : Statement → Statement
  | .action simple => .action simple.unplaced
  | .label name _ => .label name 0
  | .goto name _ => .goto name 0
  | .block kind condition body => .block kind condition.unplaced (unplacedAll body)

def unplacedAll : List Statement → List Statement
  | [] => []
  | statement :: rest => statement.unplaced :: unplacedAll rest

end

mutual

/-- The place of a label inside a statement that `rest` follows, given the blocks around it. -/
def locate (name : String) (rest : List Statement) (enclosing : List Enclosing) :
    Statement → Option (List Statement × List Enclosing)
  | .block kind _ body => locateIn name (⟨kind, rest⟩ :: enclosing) body
  | .label other line =>
      if other = name then some (.label other line :: rest, enclosing) else none
  | .action _ => none
  | .goto _ _ => none

/-- The place of a label: the statements from the label on, up to the end of the innermost block
around it, and the blocks around it, innermost first. -/
def locateIn (name : String) (enclosing : List Enclosing) :
    List Statement → Option (List Statement × List Enclosing)
  | [] => none
  | statement :: rest =>
      (statement.locate name rest enclosing).or (locateIn name enclosing rest)

end

end Statement

end TeenyBasic
