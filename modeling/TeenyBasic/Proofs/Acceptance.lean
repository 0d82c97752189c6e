import TeenyBasic.Proofs.CProgramTree

/-!
# Which programs are accepted

A program is put into C exactly if its text is a list of tokens, the grammar derives them, and its
names are in order.  The C text is then the text of the tree that the grammar derives.
-/

namespace TeenyBasic

namespace CProgram

variable {precision : Int} {draft : Draft} {blocks : List Block}

private theorem exists_line_of_printLine {ending : Ending} {next : Draft} {tokens rest : List Token}
    (written : printLine precision ending draft tokens = .ok (next, rest)) (text : String)
    (line : Int) :
    ∃ statement, Grammar.Line (⟨.keyword .printWord, text, line⟩ :: tokens) statement rest := by
  unfold printLine at written
  split at written
  · simp only [Except.ok.injEq, Prod.mk.injEq] at written
    obtain ⟨-, rfl⟩ := written
    exact ⟨_, .printText⟩
  · split at written
    · simp at written
    · next found =>
      simp only [Except.ok.injEq, Prod.mk.injEq] at written
      obtain ⟨-, rfl⟩ := written
      obtain ⟨tree, derived⟩ := Formula.exists_sum_of_expression found
      exact ⟨_, .printValue derived⟩

private theorem exists_line_of_labelLine {ending : Ending} {next : Draft} {tokens rest : List Token}
    (written : labelLine ending draft tokens = .ok (next, rest)) (text : String) (line : Int) :
    ∃ statement, Grammar.Line (⟨.keyword .labelWord, text, line⟩ :: tokens) statement rest := by
  unfold labelLine at written
  split at written
  · simp at written
  · next named =>
    obtain ⟨text', rfl⟩ := Ending.exists_identifier_of_expectName named
    split at written
    · simp at written
    · split at written
      · simp at written
      · simp only [Except.ok.injEq, Prod.mk.injEq] at written
        obtain ⟨-, rfl⟩ := written
        exact ⟨_, .label⟩

private theorem exists_line_of_gotoLine {ending : Ending} {next : Draft} {tokens rest : List Token}
    (written : gotoLine ending draft tokens = .ok (next, rest)) (text : String) (line : Int) :
    ∃ statement, Grammar.Line (⟨.keyword .gotoWord, text, line⟩ :: tokens) statement rest := by
  unfold gotoLine at written
  split at written
  · simp at written
  · next named =>
    obtain ⟨text', rfl⟩ := Ending.exists_identifier_of_expectName named
    simp only [Except.ok.injEq, Prod.mk.injEq] at written
    obtain ⟨-, rfl⟩ := written
    exact ⟨_, .goto⟩

private theorem exists_line_of_letLine {ending : Ending} {next : Draft} {tokens rest : List Token}
    (written : letLine ending draft tokens = .ok (next, rest)) (text : String) (line : Int) :
    ∃ statement, Grammar.Line (⟨.keyword .letWord, text, line⟩ :: tokens) statement rest := by
  unfold letLine at written
  split at written
  · simp at written
  · next named =>
    obtain ⟨text', rfl⟩ := Ending.exists_identifier_of_expectName named
    simp only at written
    split at written
    · simp at written
    · next assigned =>
      obtain ⟨text'', line'', rfl⟩ := Ending.exists_assign_of_expect assigned
      split at written
      · simp at written
      · next found =>
        simp only [Except.ok.injEq, Prod.mk.injEq] at written
        obtain ⟨-, rfl⟩ := written
        obtain ⟨tree, derived⟩ := Formula.exists_sum_of_expression found
        exact ⟨_, .assign derived⟩

private theorem exists_line_of_inputLine {ending : Ending} {next : Draft} {tokens rest : List Token}
    (written : inputLine ending draft tokens = .ok (next, rest)) (text : String) (line : Int) :
    ∃ statement, Grammar.Line (⟨.keyword .inputWord, text, line⟩ :: tokens) statement rest := by
  unfold inputLine at written
  split at written
  · simp at written
  · next named =>
    obtain ⟨text', rfl⟩ := Ending.exists_identifier_of_expectName named
    simp only [Except.ok.injEq, Prod.mk.injEq] at written
    obtain ⟨-, rfl⟩ := written
    exact ⟨_, .input⟩

theorem exists_comparison_of_openLine {block : Block} {ending : Ending} {next : Draft}
    {tokens rest : List Token} (written : openLine block ending draft tokens = .ok (next, rest)) :
    ∃ condition text line,
      Grammar.Comparison tokens condition (⟨.keyword block.separator, text, line⟩ :: rest) := by
  unfold openLine at written
  split at written
  · simp at written
  · next found =>
    split at written
    · simp at written
    · next separated =>
      simp only [Except.ok.injEq, Prod.mk.injEq] at written
      obtain ⟨-, rfl⟩ := written
      obtain ⟨text, line, rfl⟩ := Ending.exists_keyword_of_expect separated
      obtain ⟨tree, derived⟩ := Formula.exists_comparison_of_condition found
      exact ⟨tree, text, line, derived⟩

theorem eq_of_inside_eq_ok {inner : List Block} {next : Draft} {rest : List Token}
    {result : Except Diagnostic (Draft × List Token)}
    (written : inside blocks result = .ok (next, inner, rest)) : inner = blocks := by
  unfold inside at written
  split at written
  · simp at written
  · simp only [Except.ok.injEq, Prod.mk.injEq] at written
    exact written.2.1.symm

theorem eq_of_closeLine_eq_ok {block : Block} {next : Draft} {inner : List Block} {token : Token}
    {tokens rest : List Token}
    (written : closeLine block draft blocks token tokens = .ok (next, inner, rest)) :
    blocks = block :: inner ∧ tokens = rest := by
  unfold closeLine at written
  split at written
  · split at written
    · next same =>
      simp only [Except.ok.injEq, Prod.mk.injEq] at written
      rw [same, written.2.1, written.2.2]
      exact ⟨rfl, rfl⟩
    · simp at written
  · simp at written

/-- A line that is written is a line of the grammar, the beginning of a block or its end. -/
theorem line_cases {ending : Ending} {next : Draft} {inner : List Block} {token : Token}
    {tokens middle : List Token}
    (written : line precision ending draft blocks token tokens = .ok (next, inner, middle)) :
    (inner = blocks ∧ ∃ statement, Grammar.Line (token :: tokens) statement middle) ∨
    (∃ block condition text line text' line', inner = block :: blocks ∧
      token = ⟨.keyword block.opener, text', line'⟩ ∧
      Grammar.Comparison tokens condition (⟨.keyword block.separator, text, line⟩ :: middle)) ∨
    (∃ block text line, blocks = block :: inner ∧ token = ⟨.keyword block.closer, text, line⟩ ∧
      tokens = middle) := by
  obtain ⟨lexeme, text, line'⟩ := token
  unfold line at written
  split at written
  · next shape =>
    obtain rfl : lexeme = _ := shape
    exact .inl ⟨eq_of_inside_eq_ok written,
      exists_line_of_printLine (of_inside_eq_ok written) text line'⟩
  · next shape =>
    obtain rfl : lexeme = _ := shape
    obtain ⟨tree, text', line'', derived⟩ := exists_comparison_of_openLine (of_inside_eq_ok written)
    exact .inr (.inl ⟨.conditional, tree, text', line'', text, line',
      eq_of_inside_eq_ok written, rfl, derived⟩)
  · next shape =>
    obtain rfl : lexeme = _ := shape
    obtain ⟨tree, text', line'', derived⟩ := exists_comparison_of_openLine (of_inside_eq_ok written)
    exact .inr (.inl ⟨.loop, tree, text', line'', text, line',
      eq_of_inside_eq_ok written, rfl, derived⟩)
  · next shape =>
    obtain rfl : lexeme = _ := shape
    obtain ⟨same, rfl⟩ := eq_of_closeLine_eq_ok written
    exact .inr (.inr ⟨.conditional, text, line', same, rfl, rfl⟩)
  · next shape =>
    obtain rfl : lexeme = _ := shape
    obtain ⟨same, rfl⟩ := eq_of_closeLine_eq_ok written
    exact .inr (.inr ⟨.loop, text, line', same, rfl, rfl⟩)
  · next shape =>
    obtain rfl : lexeme = _ := shape
    exact .inl ⟨eq_of_inside_eq_ok written,
      exists_line_of_labelLine (of_inside_eq_ok written) text line'⟩
  · next shape =>
    obtain rfl : lexeme = _ := shape
    exact .inl ⟨eq_of_inside_eq_ok written,
      exists_line_of_gotoLine (of_inside_eq_ok written) text line'⟩
  · next shape =>
    obtain rfl : lexeme = _ := shape
    exact .inl ⟨eq_of_inside_eq_ok written,
      exists_line_of_letLine (of_inside_eq_ok written) text line'⟩
  · next shape =>
    obtain rfl : lexeme = _ := shape
    exact .inl ⟨eq_of_inside_eq_ok written,
      exists_line_of_inputLine (of_inside_eq_ok written) text line'⟩
  · simp at written

theorem of_wholeLine_eq_ok {ending : Ending} {next : Draft} {inner : List Block} {token : Token}
    {tokens rest : List Token}
    (written : wholeLine precision ending draft blocks token tokens = .ok (next, inner, rest)) :
    ∃ middle, line precision ending draft blocks token tokens = .ok (next, inner, middle) ∧
      Grammar.Newline middle rest := by
  unfold wholeLine at written
  split at written
  · simp at written
  · next found =>
    split at written
    · simp at written
    · next ended =>
      simp only [Except.ok.injEq, Prod.mk.injEq] at written
      obtain ⟨rfl, rfl, rfl⟩ := written
      exact ⟨_, found, Grammar.newline_of_expectLineEnd ended⟩

/-- Accepted tokens are what remains of a program inside the open blocks, and no fault is behind
them. -/
theorem exists_remainder_of_lines {ending : Ending} {tokens : List Token} {code : String}
    (accepted : lines precision ending draft blocks tokens = .ok code) :
    (∃ last, ending = .eof last) ∧
    ∃ here enclosing, Grammar.Remainder tokens here enclosing ∧
      enclosing.map Enclosing.block = blocks := by
  fun_induction lines precision ending draft blocks tokens with
  | case1 => simp at accepted
  | case2 draft blocks last atEnd closed =>
      have empty : blocks = [] := by simpa using closed
      exact ⟨⟨last, atEnd⟩, [], [], .outermost .none, empty.symm⟩
  | case3 => simp at accepted
  | case4 => simp at accepted
  | case5 draft blocks token tokens next inner rest taken induction =>
      obtain ⟨atEnd, here, enclosing, remains, same⟩ := induction accepted
      obtain ⟨middle, written, ends⟩ := of_wholeLine_eq_ok taken
      refine ⟨atEnd, ?_⟩
      obtain ⟨rfl, statement, derived⟩ |
          ⟨block, condition, text, line, text', line', rfl, rfl, derived⟩ |
          ⟨block, text, line, rfl, rfl, rfl⟩ := line_cases written
      · exact ⟨statement :: here, enclosing,
          remains.cons fun _ _ others => .line derived ends others, same⟩
      · -- the innermost block of what remains is the one that begins here
        cases remains with
        | outermost _ => simp at same
        | @inside block' after enclosing _ _ _ _ _ _ body ends' outer =>
            simp only [List.map_cons, List.cons.injEq] at same
            obtain ⟨rfl, same⟩ := same
            exact ⟨.block block' condition here :: after, enclosing,
              outer.cons fun _ _ others => .block derived ends body ends' others, same⟩
      · -- a closing word: the statements behind it are those after the block
        exact ⟨[], ⟨block, here⟩ :: enclosing, .inside .none ends remains, by simp [same]⟩

/-- Whatever is accepted has a tree. -/
theorem exists_program_of_ofSource {source : String} {code : String}
    (accepted : ofSource precision source = .ok code) :
    ∃ body last tree, Lexer.tokens source = .ok (body ++ [Token.eofAt last]) ∧
      Grammar.Program body tree := by
  unfold ofSource at accepted
  obtain ⟨⟨last, ends⟩, here, enclosing, remains, same⟩ := exists_remainder_of_lines accepted
  have none : enclosing = [] := by simpa using same
  subst none
  cases remains with
  | outermost derived =>
      rw [lookedAt, ends] at derived
      refine ⟨_, last, here, ?_, Grammar.program_of_dropWhile derived⟩
      rw [Lexer.tokens, Lexer.Scan.complete, ends]

private theorem firstDangling?_eq_none_iff {namings : List Naming}
    (records : draft.Records namings) :
    firstDangling? draft = none ↔ Naming.JumpsDeclared namings := by
  have declared : firstDangling? draft = none ↔
      ∀ name, (∃ line, (name, line) ∈ draft.jumps) → name ∈ draft.labels := by
    simp [firstDangling?]
  simp only [declared, records.jumps, records.labels, Naming.JumpsDeclared]

private theorem judged_finish {namings : List Naming} (records : draft.Records namings) :
    Judged (Naming.JumpsDeclared namings) (finish draft)
      (· = CText.preamble ++ CText.declarations namings ++ draft.code.body ++
        CText.line "return 0;" ++ CText.line "\x7d") := by
  have ended := (records.writeLine "return 0;").writeLine "\x7d"
  rw [← firstDangling?_eq_none_iff ended]
  unfold finish
  simp only
  split
  · next name line dangling =>
    exact .inr ⟨by simp [dangling], .undeclaredLabel name line, rfl⟩
  · next none =>
    refine .inl ⟨none, _, rfl, ?_⟩
    rw [CodeBuffer.code, ended.header]
    simp only [Draft.writeLine, CodeBuffer.body_writeLine, CText.line, String.append_assoc]

end CProgram

/-- The text is one of tokens, and the grammar derives the tree from them. -/
def SourceTree (source : String) (tree : List Statement) : Prop :=
  ∃ body last, Lexer.tokens source = .ok (body ++ [Token.eofAt last]) ∧ Grammar.Program body tree

theorem Lexer.scan_of_tokens {source : String} {body : List Token} {last : Int}
    (tokenized : Lexer.tokens source = .ok (body ++ [Token.eofAt last])) :
    (scan (Cursor.start source)).tokens = body ∧
      (scan (Cursor.start source)).ending = .eof last := by
  obtain ⟨line, ends, whole⟩ := Scan.exists_eof_of_complete tokenized
  obtain ⟨same, lastSame⟩ := List.append_inj' whole rfl
  simp only [Token.eofAt, List.cons.injEq, Token.mk.injEq, true_and, and_true] at lastSame
  exact ⟨same.symm, lastSame ▸ ends⟩

/-- A text with a tree is put into C as the tree says if its names are in order, and refused
otherwise. -/
theorem CProgram.judged_ofSource {source : String} {tree : List Statement}
    (derives : SourceTree source tree) (precision : Int) :
    Judged (Naming.Lawful [] (Statement.namingsOf tree) ∧
        Naming.JumpsDeclared (Statement.namingsOf tree))
      (ofSource precision source) (· = CText.ofTree precision tree) := by
  obtain ⟨body, last, tokenized, derived⟩ := derives
  obtain ⟨tokens, ends⟩ := Lexer.scan_of_tokens tokenized
  unfold ofSource
  simp only [lookedAt, ends, tokens]
  obtain ⟨lawful, draft, written, same⟩ | ⟨unlawful, diagnostic, refused⟩ :=
    lines_of_statements derived.statements_dropWhile Grammar.settled_nil Draft.records_start
  · rw [same, lines]
    have records : draft.Records (Statement.namingsOf tree) := written.records
    obtain ⟨declared, code, finished, rfl⟩ | ⟨undeclared, diagnostic, refused⟩ :=
      judged_finish records
    · refine .inl ⟨⟨lawful, declared⟩, _, finished, ?_⟩
      rw [written.body]
      rfl
    · exact .inr ⟨fun both => undeclared both.2, diagnostic, refused⟩
  · exact .inr ⟨fun both => unlawful both.1, diagnostic, refused⟩

/-- If a text with a tree is accepted, its names are in order and the C program is the tree's. -/
theorem CProgram.of_accepted {precision : Int} {source code : String} {tree : List Statement}
    (accepted : ofSource precision source = .ok code) (derives : SourceTree source tree) :
    (Naming.Lawful [] (Statement.namingsOf tree) ∧
      Naming.JumpsDeclared (Statement.namingsOf tree)) ∧ code = CText.ofTree precision tree := by
  obtain ⟨inOrder, text, made, same⟩ | ⟨-, diagnostic, refused⟩ := judged_ofSource derives precision
  · rw [made, Except.ok.injEq] at accepted
    exact ⟨inOrder, accepted ▸ same⟩
  · simp [refused] at accepted

/-- If the names of a tree are in order, every text that has it is accepted. -/
theorem CProgram.ofSource_eq_ok {source : String} {tree : List Statement}
    (derives : SourceTree source tree) (lawful : Naming.Lawful [] (Statement.namingsOf tree))
    (declared : Naming.JumpsDeclared (Statement.namingsOf tree)) (precision : Int) :
    ofSource precision source = .ok (CText.ofTree precision tree) := by
  obtain ⟨-, code, made, rfl⟩ | ⟨fails, -⟩ := judged_ofSource derives precision
  · exact made
  · exact absurd ⟨lawful, declared⟩ fails

namespace Sample

/-- The jump leaves the loop, and its label is in no block. -/
def squaring : String :=
  "INPUT a\nWHILE a<a REPEAT\nLET b=a*a\nGOTO c\nENDWHILE\nLABEL c"

def squaringTree : List Statement :=
  [.action (.input "a"),
    .block .loop (.compare .less (.read "a" 2) (.read "a" 2))
      [.action (.assign "b" (.binary .times (.read "a" 3) (.read "a" 3))), .goto "c" 4],
    .label "c" 6]

set_option maxRecDepth 10000 in
theorem sourceTree_squaring : SourceTree squaring squaringTree := by
  have tokenized : Lexer.tokens squaring = .ok ([
      ⟨.keyword .inputWord, "INPUT", 1⟩, ⟨.identifier "a", "a", 1⟩, ⟨.newline, "\n", 1⟩,
      ⟨.keyword Block.loop.opener, "WHILE", 2⟩, ⟨.identifier "a", "a", 2⟩,
      ⟨.relation .less, "<", 2⟩, ⟨.identifier "a", "a", 2⟩,
      ⟨.keyword Block.loop.separator, "REPEAT", 2⟩, ⟨.newline, "\n", 2⟩,
      ⟨.keyword .letWord, "LET", 3⟩, ⟨.identifier "b", "b", 3⟩, ⟨.assign, "=", 3⟩,
      ⟨.identifier "a", "a", 3⟩, ⟨.arithmetic .times, "*", 3⟩, ⟨.identifier "a", "a", 3⟩,
      ⟨.newline, "\n", 3⟩, ⟨.keyword .gotoWord, "GOTO", 4⟩, ⟨.identifier "c", "c", 4⟩,
      ⟨.newline, "\n", 4⟩, ⟨.keyword Block.loop.closer, "ENDWHILE", 5⟩, ⟨.newline, "\n", 5⟩,
      ⟨.keyword .labelWord, "LABEL", 6⟩, ⟨.identifier "c", "c", 6⟩, ⟨.newline, "\n", 6⟩] ++
      [Token.eofAt 7]) := by
    cbv
  exact ⟨_, _, tokenized, .statements (.line .input .one (.block
    (.first (.first (.first (.unsigned .identifier))) (.first (.first (.unsigned .identifier))))
    .one
    (.line
      (.assign (.first (.further (.first (.unsigned .identifier)) rfl (.unsigned .identifier))))
      .one (.line .goto .one .none))
    .one (.line .label .one .none)))⟩

theorem ofSource_squaring (precision : Int) :
    CProgram.ofSource precision squaring = .ok (CText.ofTree precision squaringTree) := by
  refine CProgram.ofSource_eq_ok sourceTree_squaring (by decide) ?_ precision
  simp [Naming.JumpsDeclared, squaringTree, Statement.namingsOf, Statement.namings,
    Action.namings, Condition.namings, Expression.namings]

end Sample

/-- A program is put into C exactly if its text is a list of tokens that the grammar derives, every
variable that is read was assigned before, no label is declared twice and every jump names a
label. -/
theorem CProgram.exists_code_iff (precision : Int) (source : String) :
    (∃ code, ofSource precision source = .ok code) ↔
      ∃ body last, Lexer.tokens source = .ok (body ++ [Token.eofAt last]) ∧
        (∃ tree, Grammar.Program body tree) ∧
        Naming.AssignedBeforeRead (Naming.ofTokens body) ∧
        Naming.LabelsDistinct (Naming.ofTokens body) ∧
        Naming.JumpsDeclared (Naming.ofTokens body) := by
  constructor
  · rintro ⟨code, accepted⟩
    obtain ⟨body, last, tree, tokenized, derived⟩ := exists_program_of_ofSource accepted
    obtain ⟨⟨lawful, declared⟩, -⟩ := of_accepted accepted ⟨body, last, tokenized, derived⟩
    rw [Naming.lawful_nil_iff, ← derived.namings_eq] at lawful
    rw [← derived.namings_eq] at declared
    exact ⟨body, last, tokenized, ⟨tree, derived⟩, lawful.1, lawful.2, declared⟩
  · rintro ⟨body, last, tokenized, ⟨tree, derived⟩, assigned, distinct, declared⟩
    rw [derived.namings_eq] at assigned distinct declared
    have lawful := Naming.lawful_nil_iff.mpr ⟨assigned, distinct⟩
    exact ⟨_, ofSource_eq_ok ⟨body, last, tokenized, derived⟩ lawful declared precision⟩

/-- The C program is that of the tree: the preamble, a declaration for each name behind `LET` or
`INPUT`, the statements, and the end.  So every other text with the same tree up to lines gets the
same C program. -/
theorem CProgram.code_eq_of_tree {precision : Int} {source code : String}
    (accepted : ofSource precision source = .ok code) :
    (∃ tree, SourceTree source tree) ∧
    ∀ body last tree, Lexer.tokens source = .ok (body ++ [Token.eofAt last]) →
      Grammar.Program body tree →
      code = CText.preamble ++ CText.declarations (Naming.ofTokens body) ++
          Statement.allToC precision tree ++ CText.line "return 0;" ++ CText.line "\x7d" ∧
        ∀ other otherTree, SourceTree other otherTree →
          Statement.unplacedAll otherTree = Statement.unplacedAll tree →
          ofSource precision other = .ok code := by
  obtain ⟨body, last, tree, tokenized, derived⟩ := exists_program_of_ofSource accepted
  refine ⟨⟨tree, body, last, tokenized, derived⟩, ?_⟩
  -- any other derivation will do as well
  clear tokenized derived
  intro body last tree tokenized derived
  obtain ⟨⟨lawful, declared⟩, same⟩ := of_accepted accepted ⟨body, last, tokenized, derived⟩
  refine ⟨by rw [derived.namings_eq]; exact same, fun other otherTree otherDerives alike => ?_⟩
  have namings : Statement.namingsOf otherTree = Statement.namingsOf tree := by
    rw [← Statement.namingsOf_unplacedAll otherTree, alike, Statement.namingsOf_unplacedAll]
  have texts : CText.ofTree precision otherTree = CText.ofTree precision tree := by
    rw [← CText.ofTree_unplaced, alike, CText.ofTree_unplaced]
  rw [same, ← texts]
  rw [← namings] at lawful declared
  exact ofSource_eq_ok otherDerives lawful declared precision

set_option maxRecDepth 10000 in
/-- Variables are declared in the order of their assignment, and the right factor is made a
double. -/
theorem CProgram.code_eq_of_tree_squaring :
    ofSource 2 Sample.squaring = .ok (CText.ofTree 2 Sample.squaringTree) ∧
    CText.ofTree 2 Sample.squaringTree =
      "#include <stdio.h>\nint main(void) \x7b\nfloat a;\nfloat b;\n" ++
      "if(1 != scanf(\"%f\", &a)) \x7b\na = 0;\nscanf(\"%*s\");\n\x7d\n" ++
      "while (a < a) \x7b\nb = a * (double)a;\ngoto c;\n\x7d\nc:;\nreturn 0;\n\x7d\n" ∧
    ∀ other otherTree, SourceTree other otherTree →
      Statement.unplacedAll otherTree = Statement.unplacedAll Sample.squaringTree →
      ofSource 2 other = .ok (CText.ofTree 2 Sample.squaringTree) := by
  have accepted := Sample.ofSource_squaring 2
  obtain ⟨body, last, tokenized, derived⟩ := Sample.sourceTree_squaring
  exact ⟨accepted, by decide, ((code_eq_of_tree accepted).2 body last _ tokenized derived).2⟩

end TeenyBasic
