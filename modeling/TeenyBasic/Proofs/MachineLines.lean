import TeenyBasic.Proofs.FormulaValue
import TeenyBasic.Proofs.JumpTable
import TeenyBasic.Proofs.Walk

/-!
# Lines of a machine where the grammar derives them

A machine executes one line at a time, wherever its cursor stands.  This module says what each line
does if it is one of the grammar: the effect of an action, the place that a jump leads to, and the
place behind a block that is skipped.
-/

namespace TeenyBasic

namespace Grammar

/-- The tokens begin with a statement, and the remainder goes on behind it. -/
inductive Front : List Token → Statement → List Statement → List Enclosing → Prop
  | line {tokens middle next statement after enclosing} :
      Line tokens statement middle →
      Newline middle next →
      Remainder next after enclosing →
      Front tokens statement after enclosing
  | block {block condition body tokens middle inner last next after enclosing text line text' line'
        text'' line''} :
      Comparison tokens condition (⟨.keyword (Block.separator block), text', line'⟩ :: middle) →
      Newline middle inner →
      Statements inner body (⟨.keyword block.closer, text'', line''⟩ :: last) →
      Newline last next →
      Remainder next after enclosing →
      Front (⟨.keyword block.opener, text, line⟩ :: tokens) (.block block condition body) after
        enclosing

theorem Remainder.front {tokens : List Token} {statement : Statement} {after : List Statement}
    {enclosing : List Enclosing} (remains : Remainder tokens (statement :: after) enclosing) :
    Front tokens statement after enclosing := by
  cases remains with
  | outermost derived =>
      cases derived with
      | line first ends others => exact .line first ends (.outermost others)
      | block header ends body ends' others =>
          exact .block header ends body ends' (.outermost others)
  | inside derived ends outer =>
      cases derived with
      | line first ends' others => exact .line first ends' (.inside others ends outer)
      | block header ends' body ends'' others =>
          exact .block header ends' body ends'' (.inside others ends outer)

/-- Where no statement is in front, the innermost block ends. -/
theorem Remainder.exists_closer {tokens : List Token} {block : Block} {after : List Statement}
    {enclosing : List Enclosing} (remains : Remainder tokens [] (⟨block, after⟩ :: enclosing)) :
    ∃ text line middle next, tokens = ⟨.keyword block.closer, text, line⟩ :: middle ∧
      Newline middle next ∧ Remainder next after enclosing := by
  cases remains with
  | inside derived ends outer =>
      cases derived with
      | none => exact ⟨_, _, _, _, rfl, ends, outer⟩

theorem Remainder.eq_nil {tokens : List Token} (remains : Remainder tokens [] []) :
    tokens = [] := by
  cases remains with
  | outermost derived =>
      cases derived with
      | none => rfl

/-- The tokens from a label on are what remains of the program there. -/
theorem exists_remainder_of_locateIn {tokens rest : List Token} {name : String}
    {statements there : List Statement} {enclosing within : List Enclosing}
    (derived : Statements tokens statements rest)
    (behind : ∀ tokens statements, Statements tokens statements rest →
      Remainder tokens statements enclosing)
    (located : Statement.locateIn name enclosing statements = some (there, within)) :
    ∃ found, found <:+ tokens ∧ Remainder found there within ∧
      ∃ text line text' line' more,
        found = ⟨.keyword .labelWord, text, line⟩ :: ⟨.identifier name, text', line'⟩ :: more := by
  induction derived generalizing enclosing with
  | none => simp [Statement.locateIn] at located
  | line first ends others induction =>
      rw [Statement.locateIn, Option.or_eq_some_iff] at located
      obtain here | ⟨-, later⟩ := located
      · cases first with
        | label =>
            simp only [Statement.locate] at here
            split at here
            · next same =>
              subst same
              simp only [Option.some.injEq, Prod.mk.injEq] at here
              obtain ⟨rfl, rfl⟩ := here
              exact ⟨_, List.suffix_refl _, behind _ _ (.line .label ends others),
                _, _, _, _, _, rfl⟩
            · simp at here
        | _ => simp [Statement.locate] at here
      · obtain ⟨found, suffix, remains⟩ := induction behind later
        exact ⟨found, suffix.trans (Statements.line first ends .none).suffix, remains⟩
  | block header ends body ends' others bodyInduction induction =>
      rw [Statement.locateIn, Option.or_eq_some_iff, Statement.locate] at located
      obtain inside | ⟨-, later⟩ := located
      · obtain ⟨found, suffix, remains⟩ :=
          bodyInduction (fun _ _ derived => .inside derived ends' (behind _ _ others)) inside
        exact ⟨found, (suffix.trans (header.header_suffix ends)).trans (List.suffix_cons _ _),
          remains⟩
      · obtain ⟨found, suffix, remains⟩ := induction behind later
        exact ⟨found, suffix.trans (Statements.block header ends body ends' .none).suffix, remains⟩

end Grammar

/-- The program is the text of the tree: the tree is derived from its tokens, its table was made of
them, and its jumps name labels. -/
structure Program.Shows (program : Program) (tree : List Statement) : Prop where
  derived : Grammar.Program program.body tree
  table : ∃ lastPlace,
    Destinations.collect ⟨[], [], lastPlace⟩ [] 0 program.body = .ok program.destinations
  declared : Naming.JumpsDeclared (Statement.namingsOf tree)

theorem Program.tokensFrom_eq {program : Program} {rest : List Token} {place : Nat}
    (suffix : rest <:+ program.body) (lengths : place + rest.length = program.body.length) :
    program.tokensFrom place = rest := by
  obtain ⟨taken, split⟩ := suffix
  rw [← split, List.length_append, Nat.add_right_cancel_iff] at lengths
  rw [tokensFrom, ← split, lengths, List.drop_left]

namespace Machine

def world (machine : Machine) : World :=
  ⟨machine.symbols, machine.input, machine.output⟩

def withWorld (machine : Machine) (world : World) : Machine :=
  { machine with symbols := world.symbols, input := world.input, output := world.output }

/-- What an action leads to: the next line, or a fault. -/
def afterAction (machine : Machine) (next : List Token) : World × Option Diagnostic → Step
  | (world, none) => .next { machine.withWorld world with rest := next }
  | (world, some diagnostic) => .fault (machine.withWorld world) diagnostic

variable {machine : Machine}

theorem place_eq_length {taken : List Token}
    (split : taken ++ machine.rest = machine.program.body) :
    machine.place = taken.length := by
  rw [place, ← split, List.length_append, Nat.add_sub_cancel]

@[simp] theorem tokensFrom_place (suffix : machine.rest <:+ machine.program.body) :
    machine.program.tokensFrom machine.place = machine.rest := by
  obtain ⟨taken, split⟩ := suffix
  refine Program.tokensFrom_eq ⟨taken, split⟩ ?_
  rw [place_eq_length split, ← split, List.length_append]

theorem step_eq_line {word : Keyword} {text : String} {line : Int} {tail : List Token}
    (front : machine.rest = ⟨.keyword word, text, line⟩ :: tail)
    (other : ∀ block : Block, word ≠ block.closer) :
    machine.step = machine.line ⟨.keyword word, text, line⟩ tail := by
  unfold step
  rw [front]
  cases machine.blocks with
  | nil => simp [Token.kind, Lexeme.kind]
  | cons opened outer => simp [Token.kind, Lexeme.kind, other opened.1]

theorem finishLine_of_newline {middle next : List Token} (ends : Grammar.Newline middle next)
    (settled : Grammar.Settled next) :
    machine.finishLine middle = .next { machine with rest := next } := by
  rw [finishLine, ends.expectLineEnd settled]

/-- A line with an action does what the action does. -/
theorem line_of_action {token : Token} {tail middle next : List Token} {action : Action}
    (derived : Grammar.Line (token :: tail) (.action action) middle)
    (ends : Grammar.Newline middle next) (settled : Grammar.Settled next) :
    machine.line token tail = machine.afterAction next (action.perform machine.world) := by
  have stops : Formula.Stops Operator.isArithmetic middle := Formula.stops_newline ends
  cases derived with
  | printText => exact finishLine_of_newline ends settled
  | @printValue _ _ value _ _ derived =>
      have same := Formula.value_of_sum machine derived
      simp only [Machine.line, printLine, Action.perform, world]
      split
      · exact absurd rfl (derived.ne_string _ _ _ _)
      · rw [Formula.expression_eq_row derived stops, ← same]
        cases value.row machine.meaning with
        | error diagnostic => rfl
        | ok formula => exact finishLine_of_newline ends settled
  | @assign name _ _ value _ _ _ _ _ _ derived =>
      -- the value is that with the variable declared already
      have same := Formula.value_of_sum { machine with symbols := machine.symbols.declare name }
        derived
      simp only [Machine.line, letLine, Ending.expectName, Ending.expect, Token.kind, Lexeme.kind,
        if_true, Action.perform, world]
      rw [Formula.expression_eq_row derived stops, ← same]
      cases value.row _ with
      | error diagnostic => rfl
      | ok formula => exact finishLine_of_newline ends settled
  | input => exact finishLine_of_newline ends settled

/-- A line with a label does nothing. -/
theorem line_of_label {name text text' : String} {line line' : Int} {middle next : List Token}
    (ends : Grammar.Newline middle next) (settled : Grammar.Settled next) :
    machine.line ⟨.keyword .labelWord, text, line⟩ (⟨.identifier name, text', line'⟩ :: middle) =
      .next { machine with rest := next } :=
  finishLine_of_newline ends settled

@[simp] theorem program_noteTarget (name : String) :
    (machine.noteTarget name).program = machine.program := by
  unfold noteTarget
  split <;> rfl

@[simp] theorem world_noteTarget (name : String) :
    (machine.noteTarget name).world = machine.world := by
  unfold noteTarget
  split <;> rfl

theorem mem_targets_noteTarget (name : String) : name ∈ (machine.noteTarget name).targets := by
  unfold noteTarget
  split
  · next known => simpa using known
  · simp

/-- A jump goes to the place of its label and leaves every block. -/
theorem line_of_goto {name text text' : String} {line line' : Int} {middle next : List Token}
    {place : Nat} (ends : Grammar.Newline middle next)
    (found : machine.program.destinations.label? name = some place) :
    machine.line ⟨.keyword .gotoWord, text, line⟩ (⟨.identifier name, text', line'⟩ :: middle) =
      .next { machine.noteTarget name with
        rest := machine.program.tokensFrom place, blocks := [] } := by
  have lineEnd : ∃ rest, machine.program.ending.expect .newline middle = .ok rest := by
    cases ends <;> exact ⟨_, rfl⟩
  obtain ⟨rest, taken⟩ := lineEnd
  simp only [Machine.line, gotoLine, Ending.expectName, taken, program_noteTarget, found]

@[simp] theorem line_opener (block : Block) (text : String) (line : Int) (tail : List Token) :
    machine.line ⟨.keyword block.opener, text, line⟩ tail = machine.openLine block tail := by
  cases block <;> rfl

/-- A closing word outside every block is refused. -/
theorem step_of_stray {block : Block} {text : String} {line : Int} {tail : List Token}
    (front : machine.rest = ⟨.keyword block.closer, text, line⟩ :: tail)
    (none : machine.blocks = []) :
    machine.step = .fault machine (.invalidStatement ⟨.keyword block.closer, text, line⟩) := by
  unfold step
  rw [front, none]
  cases block <;> rfl

theorem step_of_closer {block : Block} {text : String} {line : Int} {tail : List Token}
    {opener : Nat} {outer : List (Block × Nat)}
    (front : machine.rest = ⟨.keyword block.closer, text, line⟩ :: tail)
    (stack : machine.blocks = (block, opener) :: outer) :
    machine.step = machine.closeLine block opener outer tail := by
  unfold step
  rw [front, stack]
  simp [Token.kind, Lexeme.kind]

theorem header_of_comparison {block : Block} {condition : Condition}
    {tokens middle inner : List Token} {text : String} {line : Int}
    (derived : Grammar.Comparison tokens condition
      (⟨.keyword block.separator, text, line⟩ :: middle))
    (ends : Grammar.Newline middle inner) (settled : Grammar.Settled inner) :
    machine.header block tokens = (condition.row machine.meaning).map (·, inner) := by
  unfold header
  rw [Formula.condition_eq_row derived (Formula.stops_keyword _ _ _ _)]
  cases condition.row machine.meaning with
  | error diagnostic => rfl
  | ok formula =>
      simp only [Except.map, Ending.expect, Token.kind, Lexeme.kind, if_true,
        ends.expectLineEnd settled]

/-- A block that is skipped is skipped as a whole. -/
theorem skipBlock_of_block {tree : List Statement} {block : Block} {condition : Condition}
    {body : List Statement} {tokens middle inner last next : List Token}
    {text text' text'' : String} {line line' line'' : Int}
    (shows : machine.program.Shows tree) (suffix : machine.rest <:+ machine.program.body)
    (front : machine.rest = ⟨.keyword block.opener, text, line⟩ :: tokens)
    (header : Grammar.Comparison tokens condition
      (⟨.keyword block.separator, text', line'⟩ :: middle))
    (ends : Grammar.Newline middle inner)
    (derived : Grammar.Statements inner body (⟨.keyword block.closer, text'', line''⟩ :: last))
    (ends' : Grammar.Newline last next) (settled : Grammar.Settled next) :
    machine.skipBlock block = .next { machine with rest := next } := by
  obtain ⟨taken, split⟩ := suffix
  obtain ⟨lastPlace, collected⟩ := shows.table
  rw [← split, front] at collected
  obtain ⟨closing, found, lengths⟩ := Destinations.closer?_of_block collected header ends derived
  have closes : machine.program.destinations.closingFrom machine.place = closing := by
    rw [place_eq_length split]
    exact Destinations.closingFrom_of_closer? found
  have within : ⟨.keyword block.closer, text'', line''⟩ :: last <:+ machine.rest := by
    rw [front]
    exact (derived.suffix.trans (header.header_suffix ends)).trans (List.suffix_cons _ _)
  -- the table gives a place, which is compared with the tokens by their number
  have reached : machine.program.tokensFrom closing =
      ⟨.keyword block.closer, text'', line''⟩ :: last := by
    refine Program.tokensFrom_eq (within.trans ⟨taken, split⟩) ?_
    rw [← split, front]
    simp only [List.length_append, List.length_cons]
    omega
  simp only [skipBlock, closes, Int.toNat_natCast, reached, Ending.expect, Token.kind, Lexeme.kind,
    if_true]
  exact finishLine_of_newline ends' settled

end Machine

end TeenyBasic
