import TeenyBasic.CProgram
import TeenyBasic.Proofs.CText
import TeenyBasic.Proofs.FormulaReading
import TeenyBasic.Proofs.NamesInOrder

/-!
# Writing the C program of a tree

The C program is written while the tokens are read, and the draft keeps lists of names that decide
whether reading goes on.  For tokens that the grammar derives, this module says what that comes to:
if the names are lawful, the draft gets the C text of the tree and its lists hold the names of the
tree; if they are not, the program is refused (`lines_of_statements`).
-/

namespace TeenyBasic

namespace Formula

theorem foldl_code (text first : String) (steps : List (Operator × String)) :
    steps.foldl (fun code step => code ++ (step.1.code ++ step.2)) (text ++ first) =
      text ++ steps.foldl (fun code step => code ++ (step.1.code ++ step.2)) first := by
  induction steps generalizing first with
  | nil => rfl
  | cons step rest induction => simp only [List.foldl_cons, String.append_assoc, induction]

@[simp] theorem code_join (left : Formula String) (operator : Operator) (right : Formula String) :
    (left.join operator right).code = left.code ++ operator.code ++ right.code := by
  simp only [code, join, List.foldl_append, List.foldl_cons]
  rw [← String.append_assoc, foldl_code]

@[simp] theorem code_behind (text : String) (row : Formula String) :
    Formula.code ⟨text ++ row.first, row.rest⟩ = text ++ row.code :=
  foldl_code text row.first row.rest

end Formula

theorem Operator.code_arithmetic (operator : Arithmetic) :
    (Operator.arithmetic operator).code =
      " " ++ operator.text ++ " " ++ if operator.isMultiplicative then "(double)" else "" := by
  cases operator <;> decide

/-- A result that is as `good` says if the names are lawful, and a refusal if they are not. -/
def Judged {α : Type} (lawful : Prop) (result : Except Diagnostic α) (good : α → Prop) : Prop :=
  (lawful ∧ ∃ value, result = .ok value ∧ good value) ∨
    (¬ lawful ∧ ∃ diagnostic, result = .error diagnostic)

namespace Draft

/-- The lists of a draft hold the names met before, and its header declares the variables among
them. -/
structure Records (draft : Draft) (before : List Naming) : Prop where
  assigned : ∀ name, name ∈ draft.assigned ↔ Naming.assigned name ∈ before
  labels : ∀ name, name ∈ draft.labels ↔ Naming.declared name ∈ before
  jumps : ∀ name, (∃ line, (name, line) ∈ draft.jumps) ↔ Naming.jumped name ∈ before
  header : draft.code.header = CText.preamble ++ CText.declarations before

variable {draft : Draft} {before : List Naming}

theorem records_start : Draft.start.Records [] where
  assigned := by simp [start]
  labels := by simp [start]
  jumps := by simp [start]
  header := by decide

theorem Records.writeLine (records : draft.Records before) (code : String) :
    (draft.writeLine code).Records before :=
  ⟨records.assigned, records.labels, records.jumps, records.header⟩

theorem Records.header_other (records : draft.Records before) {naming : Naming}
    (other : naming.target? = none) :
    draft.code.header = CText.preamble ++ CText.declarations (before ++ [naming]) := by
  rw [records.header, CText.declarations, CText.declarations, Naming.targets_append_other other]

theorem Records.read (records : draft.Records before) (name : String) :
    draft.Records (before ++ [.read name]) where
  assigned := by simpa using records.assigned
  labels := by simpa using records.labels
  jumps := by simpa using records.jumps
  header := records.header_other rfl

theorem Records.label (records : draft.Records before) (name : String) :
    Records { draft with labels := name :: draft.labels } (before ++ [.declared name]) where
  assigned := by simpa using records.assigned
  labels := by simp [records.labels, or_comm]
  jumps := by simpa using records.jumps
  header := records.header_other rfl

theorem Records.noteJump (records : draft.Records before) (name : String) (line : Int) :
    (draft.noteJump name line).Records (before ++ [.jumped name]) := by
  have header : draft.code.header =
      CText.preamble ++ CText.declarations (before ++ [.jumped name]) := records.header_other rfl
  unfold Draft.noteJump
  split
  · next known =>
    -- the list of jumps stays as it is, so the name must have been in it
    have noted : Naming.jumped name ∈ before := by
      rw [← records.jumps]
      simpa using known
    refine ⟨by simpa using records.assigned, by simpa using records.labels, fun other => ?_, header⟩
    rw [records.jumps]
    simp only [List.mem_append, List.mem_singleton, Naming.jumped.injEq]
    exact ⟨.inl, fun either => either.elim id fun same => same ▸ noted⟩
  · refine ⟨by simpa using records.assigned, by simpa using records.labels, fun other => ?_, header⟩
    simp [← records.jumps, exists_or]

@[simp] theorem body_noteJump (draft : Draft) (name : String) (line : Int) :
    (draft.noteJump name line).code.body = draft.code.body := by
  unfold noteJump
  split <;> rfl

@[simp] theorem labels_noteJump (draft : Draft) (name : String) (line : Int) :
    (draft.noteJump name line).labels = draft.labels := by
  unfold noteJump
  split <;> rfl

@[simp] theorem body_declare (draft : Draft) (name : String) :
    (draft.declare name).code.body = draft.code.body := by
  unfold declare
  split <;> rfl

@[simp] theorem labels_declare (draft : Draft) (name : String) :
    (draft.declare name).labels = draft.labels := by
  unfold declare
  split <;> rfl

@[simp] theorem jumps_declare (draft : Draft) (name : String) :
    (draft.declare name).jumps = draft.jumps := by
  unfold declare
  split <;> rfl

theorem Records.declare (records : draft.Records before) (name : String) :
    (draft.declare name).Records (before ++ [.assigned name]) := by
  unfold Draft.declare
  split
  · next known =>
    have noted : Naming.assigned name ∈ before := by
      rw [← records.assigned]
      simpa using known
    refine ⟨fun other => ?_, by simpa using records.labels, by simpa using records.jumps, ?_⟩
    · rw [records.assigned]
      simp only [List.mem_append, List.mem_singleton, Naming.assigned.injEq]
      exact ⟨.inl, fun either => either.elim id fun same => same ▸ noted⟩
    · rw [records.header, CText.declarations, CText.declarations,
        Naming.targets_append_assigned, if_pos noted]
  · next unknown =>
    have fresh : Naming.assigned name ∉ before := by
      rw [← records.assigned]
      simpa using unknown
    refine ⟨by simp [records.assigned, or_comm], by simpa using records.labels,
      by simpa using records.jumps, ?_⟩
    rw [CodeBuffer.header_writeHeader, records.header, CText.declarations, CText.declarations,
      Naming.targets_append_assigned, if_neg fresh]
    simp [CText.declaration, CText.line, String.append_assoc]

theorem Records.namings_expression (records : draft.Records before) (tree : Expression) :
    draft.Records (before ++ tree.namings) := by
  induction tree generalizing before with
  | number value => simpa [Expression.namings] using records
  | read name line => exact records.read name
  | positive operand induction => exact induction records
  | negative operand induction => exact induction records
  | binary operator left right leftInduction rightInduction =>
      rw [Expression.namings, ← List.append_assoc]
      exact rightInduction (leftInduction records)

theorem Records.namings_condition (records : draft.Records before) (tree : Condition) :
    draft.Records (before ++ tree.namings) := by
  induction tree generalizing before with
  | compare relation left right =>
      rw [Condition.namings, ← List.append_assoc]
      exact (records.namings_expression left).namings_expression right
  | chain relation left right induction =>
      rw [Condition.namings, ← List.append_assoc]
      exact (induction records).namings_expression right

theorem judged_joinRows {first second : List Naming}
    {left right : Except Diagnostic (Formula String)} {leftText rightText : String}
    (operator : Operator)
    (judgedLeft : Judged (Naming.Lawful before first) left (·.code = leftText))
    (judgedRight : Judged (Naming.Lawful (before ++ first) second) right (·.code = rightText)) :
    Judged (Naming.Lawful before (first ++ second)) (Formula.joinRows left operator right)
      (·.code = leftText ++ operator.code ++ rightText) := by
  rw [Naming.lawful_append]
  obtain ⟨lawfulLeft, leftRow, rfl, leftCode⟩ | ⟨unlawful, diagnostic, rfl⟩ := judgedLeft
  · obtain ⟨lawfulRight, rightRow, rfl, rightCode⟩ | ⟨unlawful, diagnostic, rfl⟩ := judgedRight
    · refine .inl ⟨⟨lawfulLeft, lawfulRight⟩, _, rfl, ?_⟩
      rw [← leftCode, ← rightCode]
      exact Formula.code_join leftRow operator rightRow
    · exact .inr ⟨fun both => unlawful both.2, diagnostic, rfl⟩
  · exact .inr ⟨fun both => unlawful both.1, diagnostic, rfl⟩

theorem judged_signed {lawful : Prop} {result : Except Diagnostic (Formula String)} {text : String}
    (sign : String) (judged : Judged lawful result (·.code = text)) :
    Judged lawful (result.map fun row => Formula.mk (sign ++ row.first) row.rest)
      (·.code = sign ++ text) := by
  obtain ⟨holds, row, rfl, rfl⟩ | ⟨fails, diagnostic, rfl⟩ := judged
  · exact .inl ⟨holds, _, rfl, Formula.code_behind sign row⟩
  · exact .inr ⟨fails, diagnostic, rfl⟩

theorem Records.judged_expression (records : draft.Records before) (tree : Expression) :
    Judged (Naming.Lawful before tree.namings) (tree.row draft.meaning) (·.code = tree.toC) := by
  induction tree generalizing before with
  | number value => exact .inl ⟨trivial, _, rfl, rfl⟩
  | read name line =>
      simp only [Expression.namings, Naming.lawful_singleton, Naming.Allowed, ← records.assigned,
        Expression.row, meaning, List.contains_eq_mem, decide_eq_true_eq]
      by_cases known : name ∈ draft.assigned
      · exact .inl ⟨known, ⟨name, []⟩, by simp [known], rfl⟩
      · exact .inr ⟨known, .unassignedVariable name line, by simp [known]⟩
  | positive operand induction => exact judged_signed "+" (induction records)
  | negative operand induction => exact judged_signed "-" (induction records)
  | binary operator left right leftInduction rightInduction =>
      have joined := judged_joinRows (.arithmetic operator) (leftInduction records)
        (rightInduction (records.namings_expression left))
      rw [Operator.code_arithmetic] at joined
      simpa [Expression.namings, Expression.row, Expression.toC, String.append_assoc] using joined

private theorem Records.judged_condition (records : draft.Records before) (tree : Condition) :
    Judged (Naming.Lawful before tree.namings) (tree.row draft.meaning) (·.code = tree.toC) := by
  induction tree generalizing before with
  | compare relation left right =>
      have joined := judged_joinRows (.relation relation) (records.judged_expression left)
        ((records.namings_expression left).judged_expression right)
      simpa [Condition.namings, Condition.row, Condition.toC, Operator.code, String.append_assoc]
        using joined
  | chain relation left right induction =>
      have joined := judged_joinRows (.relation relation) (induction records)
        ((records.namings_condition left).judged_expression right)
      simpa [Condition.namings, Condition.row, Condition.toC, Operator.code, String.append_assoc]
        using joined

end Draft

namespace CProgram

variable {precision last : Int} {draft : Draft} {before : List Naming} {blocks : List Block}

/-- What becomes of a draft that recorded `before`: it records more names and its body is
continued. -/
structure Continues (draft : Draft) (before namings : List Naming) (text : String)
    (next : Draft) : Prop where
  records : next.Records (before ++ namings)
  body : next.code.body = draft.code.body ++ text

private theorem judged_printLine {tokens rest : List Token} {value : Expression}
    (derived : Grammar.Sum tokens value rest) (stops : Formula.Stops Operator.isArithmetic rest)
    (records : draft.Records before) :
    Judged (Naming.Lawful before value.namings) (printLine precision (.eof last) draft tokens)
      (fun result => result.2 = rest ∧
        Continues draft before value.namings ((Action.printValue value).toC precision)
          result.1) := by
  unfold printLine
  split
  · exact absurd rfl (derived.ne_string _ _ _ _)
  · rw [Formula.expression_eq_row derived stops]
    obtain ⟨lawful, row, made, code⟩ | ⟨unlawful, diagnostic, refused⟩ :=
      records.judged_expression value
    · rw [made]
      refine .inl ⟨lawful, _, rfl, rfl, (records.namings_expression value).writeLine _, ?_⟩
      rw [Action.toC, ← code]
      rfl
    · rw [refused]
      exact .inr ⟨unlawful, diagnostic, rfl⟩

private theorem judged_letLine {name : String} {tokens rest : List Token} {value : Expression}
    {text text' : String} {line line' : Int}
    (derived : Grammar.Sum tokens value rest) (stops : Formula.Stops Operator.isArithmetic rest)
    (records : draft.Records before) :
    Judged (Naming.Lawful before (.assigned name :: value.namings))
      (letLine (.eof last) draft
        (⟨.identifier name, text, line⟩ :: ⟨.assign, text', line'⟩ :: tokens))
      (fun result => result.2 = rest ∧
        Continues draft before (.assigned name :: value.namings)
          (CText.line (name ++ " = " ++ value.toC ++ ";")) result.1) := by
  have declared := records.declare name
  simp only [letLine, Ending.expectName, Ending.expect, Token.kind, Lexeme.kind, if_true,
    Naming.Lawful, Naming.Allowed, true_and]
  rw [Formula.expression_eq_row derived stops]
  obtain ⟨lawful, row, made, code⟩ | ⟨unlawful, diagnostic, refused⟩ :=
    declared.judged_expression value
  · rw [made]
    refine .inl ⟨lawful, _, rfl, rfl, ?_, ?_⟩
    · simpa using (declared.namings_expression value).writeLine _
    · rw [← code, ← Draft.body_declare draft name]
      rfl
  · rw [refused]
    exact .inr ⟨unlawful, diagnostic, rfl⟩

private theorem judged_labelLine {name : String} {rest : List Token} {text : String} {line : Int}
    (records : draft.Records before) :
    Judged (Naming.Lawful before [.declared name])
      (labelLine (.eof last) draft (⟨.identifier name, text, line⟩ :: rest))
      (fun result => result.2 = rest ∧
        Continues draft before [.declared name] (CText.line (name ++ ":;")) result.1) := by
  simp only [labelLine, Ending.expectName, Ending.reachable, Naming.lawful_singleton,
    Naming.Allowed, ← records.labels, List.contains_eq_mem, decide_eq_true_eq]
  by_cases known : name ∈ draft.labels
  · exact .inr ⟨fun fresh => fresh known, .repeatedLabel name line, by simp [known]⟩
  · exact .inl ⟨known, _, if_neg known, rfl, (records.label name).writeLine _, rfl⟩

/-- Puts the open blocks beside what a line is judged to be. -/
theorem judged_inside {lawful : Prop} {result : Except Diagnostic (Draft × List Token)}
    {rest : List Token} {good : Draft → Prop}
    (judged : Judged lawful result (fun result => result.2 = rest ∧ good result.1)) :
    Judged lawful (inside blocks result)
      (fun result => result.2 = (blocks, rest) ∧ good result.1) := by
  obtain ⟨holds, ⟨draft, tokens⟩, rfl, rfl, fine⟩ | ⟨fails, diagnostic, rfl⟩ := judged
  · exact .inl ⟨holds, _, rfl, rfl, fine⟩
  · exact .inr ⟨fails, diagnostic, rfl⟩

/-- A line of the grammar is written, or refused for its names. -/
theorem judged_line {token : Token} {tokens rest after : List Token} {statement : Statement}
    (derived : Grammar.Line (token :: tokens) statement rest) (ends : Grammar.Newline rest after)
    (records : draft.Records before) :
    Judged (Naming.Lawful before statement.namings)
      (line precision (.eof last) draft blocks token tokens)
      (fun result => result.2 = (blocks, rest) ∧
        Continues draft before statement.namings (statement.toC precision) result.1) := by
  have stops : Formula.Stops Operator.isArithmetic rest := Formula.stops_newline ends
  cases derived with
  | printText =>
      refine .inl ⟨trivial, _, rfl, rfl, ?_, rfl⟩
      simpa [Statement.namings, Action.namings] using records.writeLine _
  | printValue derived => exact judged_inside (judged_printLine derived stops records)
  | label => exact judged_inside (judged_labelLine records)
  | @goto name _ _ _ _ line' =>
      refine .inl ⟨⟨trivial, trivial⟩, _, rfl, rfl, (records.noteJump name line').writeLine _, ?_⟩
      rw [Statement.toC, ← Draft.body_noteJump draft name line']
      rfl
  | assign derived => exact judged_inside (judged_letLine derived stops records)
  | @input name =>
      refine .inl ⟨⟨trivial, trivial⟩, _, rfl, rfl, ?_, ?_⟩
      · exact ((((records.declare name).writeLine _).writeLine _).writeLine _).writeLine _
      · rw [Statement.toC, Action.toC, ← Draft.body_declare draft name]
        simp only [Draft.writeLine, CodeBuffer.body_writeLine, CText.line, String.append_assoc]

private theorem judged_openLine {block : Block} {tokens middle : List Token} {condition : Condition}
    {text : String} {line : Int}
    (derived : Grammar.Comparison tokens condition
      (⟨.keyword block.separator, text, line⟩ :: middle))
    (records : draft.Records before) :
    Judged (Naming.Lawful before condition.namings) (openLine block (.eof last) draft tokens)
      (fun result => result.2 = middle ∧
        Continues draft before condition.namings
          (CText.line (block.code ++ " (" ++ condition.toC ++ ") \x7b")) result.1) := by
  unfold openLine
  rw [Formula.condition_eq_row derived (Formula.stops_keyword _ _ _ _)]
  obtain ⟨lawful, row, made, code⟩ | ⟨unlawful, diagnostic, refused⟩ :=
    records.judged_condition condition
  · rw [made]
    simp only [Except.map, Ending.expect, Token.kind, Lexeme.kind, if_true]
    refine .inl ⟨lawful, _, rfl, rfl, (records.namings_condition condition).writeLine _, ?_⟩
    rw [← code]
    rfl
  · rw [refused]
    exact .inr ⟨unlawful, diagnostic, rfl⟩

@[simp] theorem line_opener (block : Block) (ending : Ending) (text : String) (line' : Int)
    (tokens : List Token) :
    line precision ending draft blocks ⟨.keyword block.opener, text, line'⟩ tokens =
      inside (block :: blocks) (openLine block ending draft tokens) := by
  cases block <;> rfl

private theorem line_opener_of_ok {block : Block} {ending : Ending} {tokens rest : List Token}
    {next : Draft} (written : openLine block ending draft tokens = .ok (next, rest))
    (text : String) (line' : Int) :
    line precision ending draft blocks ⟨.keyword block.opener, text, line'⟩ tokens =
      .ok (next, block :: blocks, rest) := by
  rw [line_opener, written]
  rfl

@[simp] theorem line_closer (block : Block) (ending : Ending) (text : String) (line' : Int)
    (tokens : List Token) :
    line precision ending draft (block :: blocks) ⟨.keyword block.closer, text, line'⟩ tokens =
      .ok (draft.writeLine "\x7d", blocks, tokens) := by
  cases block <;> rfl

private theorem toC_block (block : Block) (condition : Condition) (body : List Statement) :
    (Statement.block block condition body).toC precision =
      CText.line (block.code ++ " (" ++ condition.toC ++ ") \x7b") ++
        Statement.allToC precision body ++ CText.line "\x7d" := by
  have opening : "if" ++ " (" = "if (" ∧ "while" ++ " (" = "while (" := by decide
  cases block <;> simp [Statement.toC, Block.code, opening.1, opening.2]

theorem lines_cons (ending : Ending) (token : Token) (tokens : List Token) :
    lines precision ending draft blocks (token :: tokens) =
      match wholeLine precision ending draft blocks token tokens with
      | .error diagnostic => .error diagnostic
      | .ok (draft, blocks, rest) => lines precision ending draft blocks rest := by
  rw [lines]
  split <;> simp_all

/-- A line that can be written and ended is followed by the other lines. -/
theorem lines_of_line {token : Token} {tokens middle rest : List Token} {next : Draft}
    {inner : List Block} {ending : Ending}
    (written : line precision ending draft blocks token tokens = .ok (next, inner, middle))
    (ends : Grammar.Newline middle rest) (settled : Grammar.Settled rest) :
    lines precision ending draft blocks (token :: tokens) =
      lines precision ending next inner rest := by
  rw [lines_cons, wholeLine, written]
  simp only [ends.expectLineEnd settled]

theorem lines_of_line_error {token : Token} {tokens : List Token} {ending : Ending}
    {diagnostic : Diagnostic}
    (refused : line precision ending draft blocks token tokens = .error diagnostic) :
    lines precision ending draft blocks (token :: tokens) = .error diagnostic := by
  rw [lines_cons, wholeLine, refused]

theorem Continues.trans {middle next : Draft} {first second : List Naming}
    {firstText secondText : String} (start : Continues draft before first firstText middle)
    (onward : Continues middle (before ++ first) second secondText next) :
    Continues draft before (first ++ second) (firstText ++ secondText) next where
  records := by simpa using onward.records
  body := by rw [onward.body, start.body, String.append_assoc]

theorem Continues.writeLine {next : Draft} {namings : List Naming} {text : String}
    (start : Continues draft before namings text next) (code : String) :
    Continues draft before namings (text ++ CText.line code) (next.writeLine code) where
  records := start.records.writeLine code
  body := by
    rw [← String.append_assoc, ← start.body]
    rfl

/-- Statements of the grammar are written, or refused for their names. -/
theorem lines_of_statements {tokens rest : List Token} {statements : List Statement}
    (derived : Grammar.Statements tokens statements rest) (settled : Grammar.Settled rest)
    (records : draft.Records before) :
    (Naming.Lawful before (Statement.namingsOf statements) ∧
      ∃ next, Continues draft before (Statement.namingsOf statements)
          (Statement.allToC precision statements) next ∧
        lines precision (.eof last) draft blocks tokens =
          lines precision (.eof last) next blocks rest) ∨
    (¬ Naming.Lawful before (Statement.namingsOf statements) ∧
      ∃ diagnostic, lines precision (.eof last) draft blocks tokens = .error diagnostic) := by
  induction derived generalizing draft before blocks with
  | none =>
      refine .inl ⟨trivial, draft, ⟨?_, ?_⟩, rfl⟩
      · simpa [Statement.namingsOf] using records
      · simp [Statement.allToC]
  | line first ends others induction =>
      obtain ⟨token, tail, rfl⟩ := first.exists_cons
      rw [Statement.namingsOf, Statement.allToC, Naming.lawful_append]
      obtain ⟨lawful, ⟨middle, _⟩, written, rfl, start⟩ | ⟨unlawful, diagnostic, refused⟩ :=
        judged_line first ends records
      · rw [lines_of_line written ends (others.settled settled)]
        obtain ⟨lawful', next, onward, same⟩ | ⟨unlawful, diagnostic, refused⟩ :=
          induction settled start.records
        · exact .inl ⟨⟨lawful, lawful'⟩, next, start.trans onward, same⟩
        · exact .inr ⟨fun both => unlawful both.2, diagnostic, refused⟩
      · exact .inr ⟨fun both => unlawful both.1, diagnostic, lines_of_line_error refused⟩
  | @block block condition body _ _ _ _ _ _ statements _ _ _ _ _ _ compared ends inner ends' others
      bodyInduction induction =>
      have settledNext := others.settled settled
      have settledInner := inner.settled (Grammar.settled_keyword _ _ _ _)
      rw [Statement.namingsOf, Statement.namings, Statement.allToC, toC_block,
        Naming.lawful_append, Naming.lawful_append]
      obtain ⟨lawful, ⟨opened, _⟩, written, rfl, start⟩ | ⟨unlawful, diagnostic, refused⟩ :=
        judged_openLine compared records
      · rw [lines_of_line (line_opener_of_ok written _ _) ends settledInner]
        obtain ⟨lawfulBody, filled, inside, same⟩ | ⟨unlawful, diagnostic, refused⟩ :=
          bodyInduction (Grammar.settled_keyword _ _ _ _) start.records
        · -- the block is closed before the statements behind it are judged
          rw [same, lines_of_line (line_closer block _ _ _ _) ends' settledNext]
          have whole := (start.trans inside).writeLine "\x7d"
          obtain ⟨lawfulRest, next, onward, same⟩ | ⟨unlawful, diagnostic, refused⟩ :=
            induction settled whole.records
          · exact .inl ⟨⟨⟨lawful, lawfulBody⟩, lawfulRest⟩, next, whole.trans onward, same⟩
          · exact .inr ⟨fun all => unlawful all.2, diagnostic, refused⟩
        · exact .inr ⟨fun all => unlawful all.1.2, diagnostic, refused⟩
      · refine .inr ⟨fun all => unlawful all.1.1, diagnostic, lines_of_line_error ?_⟩
        rw [line_opener, refused]
        rfl

end CProgram

end TeenyBasic
