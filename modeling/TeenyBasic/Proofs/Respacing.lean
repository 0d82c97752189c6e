import TeenyBasic.Proofs.CProgramTree

/-!
# Empty lines and the numbers of lines

Two texts may hold the same tokens on different lines and with different numbers of empty lines
between them: their tokens are `Respaced`.  Who reads tokens takes a line end together with all
empty lines behind it and looks at line numbers only to report a fault.  So every reader answers two
respaced lists alike: with the same fault, perhaps on another line, or with the same result and
respaced tokens behind it.  The C program that is written is the same text (`lines_agree`).
-/

namespace TeenyBasic

/-- The same token, perhaps on another line. -/
structure Token.Same (token token' : Token) : Prop where
  lexeme : token.lexeme = token'.lexeme
  text : token.text = token'.text

/-- The same tokens, perhaps on other lines and with other numbers of empty lines between them. -/
inductive Respaced : List Token → List Token → Prop
  | nil : Respaced [] []
  | token {token token' rest rest'} :
      token.Same token' →
      token.isNewline = false →
      Respaced rest rest' →
      Respaced (token :: rest) (token' :: rest')
  | lineEnd {token token' rest rest'} :
      token.Same token' →
      token.isNewline = true →
      Respaced (rest.dropWhile Token.isNewline) (rest'.dropWhile Token.isNewline) →
      Respaced (token :: rest) (token' :: rest')

/-- Both results are faults that differ in their lines at most, or both are related values. -/
inductive Agree {α β : Type} (related : α → β → Prop) :
    Except Diagnostic α → Except Diagnostic β → Prop
  | ok {value value'} : related value value' → Agree related (.ok value) (.ok value')
  | error {diagnostic diagnostic'} :
      diagnostic.fault = diagnostic'.fault → Agree related (.error diagnostic) (.error diagnostic')

/-- Related values with respaced tokens behind them. -/
def Behind {α β : Type} (related : α → β → Prop) (first : α × List Token)
    (second : β × List Token) : Prop :=
  related first.1 second.1 ∧ Respaced first.2 second.2

theorem Agree.cases {α β : Type} {related : α → β → Prop} {first : Except Diagnostic α}
    {second : Except Diagnostic β} (agree : Agree related first second) :
    (∃ diagnostic diagnostic', first = .error diagnostic ∧ second = .error diagnostic' ∧
      diagnostic.fault = diagnostic'.fault) ∨
    ∃ value value', first = .ok value ∧ second = .ok value' ∧ related value value' := by
  cases agree with
  | ok values => exact .inr ⟨_, _, rfl, rfl, values⟩
  | error same => exact .inl ⟨_, _, rfl, rfl, same⟩

namespace Token.Same

variable {token token' : Token}

theorem refl (token : Token) : token.Same token :=
  ⟨rfl, rfl⟩

theorem kind_eq (same : token.Same token') : token.kind = token'.kind :=
  congrArg Lexeme.kind same.lexeme

theorem isNewline_eq (same : token.Same token') : token.isNewline = token'.isNewline := by
  rw [isNewline, isNewline, same.kind_eq]

theorem expected (same : token.Same token') (kind : Kind) :
    (Diagnostic.expected kind token).fault = (Diagnostic.expected kind token').fault := by
  rw [Diagnostic.expected, Diagnostic.expected, same.kind_eq]

theorem invalidStatement (same : token.Same token') :
    (Diagnostic.invalidStatement token).fault = (Diagnostic.invalidStatement token').fault := by
  rw [Diagnostic.invalidStatement, Diagnostic.invalidStatement, same.kind_eq, same.text]

theorem missingRelation (same : token.Same token') :
    (Diagnostic.missingRelation token).fault = (Diagnostic.missingRelation token').fault := by
  rw [Diagnostic.missingRelation, Diagnostic.missingRelation, same.kind_eq, same.text]

theorem unexpectedOperand (same : token.Same token') :
    (Diagnostic.unexpectedOperand token).fault = (Diagnostic.unexpectedOperand token').fault := by
  rw [Diagnostic.unexpectedOperand, Diagnostic.unexpectedOperand, same.kind_eq, same.text]

end Token.Same

theorem Token.same_eofAt (line line' : Int) : (eofAt line).Same (eofAt line') :=
  ⟨rfl, rfl⟩

namespace Respaced

variable {tokens tokens' : List Token}

/-- Empty lines in front may be left out. -/
theorem dropWhile (respaced : Respaced tokens tokens') :
    Respaced (tokens.dropWhile Token.isNewline) (tokens'.dropWhile Token.isNewline) := by
  cases respaced with
  | nil => exact .nil
  | token same inside rest =>
    have inside' := same.isNewline_eq ▸ inside
    rw [List.dropWhile_cons_of_neg (by simp [inside]),
      List.dropWhile_cons_of_neg (by simp [inside'])]
    exact .token same inside rest
  | lineEnd same ended rest =>
    have ended' := same.isNewline_eq ▸ ended
    rw [List.dropWhile_cons_of_pos ended, List.dropWhile_cons_of_pos ended']
    exact rest

theorem cons {token token' : Token} (same : token.Same token')
    (respaced : Respaced tokens tokens') : Respaced (token :: tokens) (token' :: tokens') := by
  cases ended : token.isNewline with
  | false => exact .token same ended respaced
  | true => exact .lineEnd same ended respaced.dropWhile

/-- Both lists begin with the same string, or none of them begins with a string. -/
theorem string_cases (respaced : Respaced tokens tokens') :
    (∃ content text line rest text' line' rest', tokens = ⟨.string content, text, line⟩ :: rest ∧
      tokens' = ⟨.string content, text', line'⟩ :: rest' ∧ Respaced rest rest') ∨
    (∀ content text line rest, tokens = ⟨.string content, text, line⟩ :: rest → False) ∧
      ∀ content text line rest, tokens' = ⟨.string content, text, line⟩ :: rest → False := by
  cases respaced with
  | nil => exact .inr ⟨nofun, nofun⟩
  | @token token token' _ _ same _ rest =>
    obtain ⟨lexeme, text, line⟩ := token
    obtain ⟨lexeme', text', line'⟩ := token'
    obtain rfl : lexeme = lexeme' := same.lexeme
    cases lexeme with
    | string content => exact .inl ⟨content, text, line, _, text', line', _, rfl, rfl, rest⟩
    | _ => exact .inr ⟨nofun, nofun⟩
  | @lineEnd token token' _ _ same ended _ =>
    obtain ⟨lexeme, text, line⟩ := token
    obtain ⟨lexeme', text', line'⟩ := token'
    obtain rfl : lexeme = lexeme' := same.lexeme
    cases lexeme with
    | string content => cases ended
    | _ => exact .inr ⟨nofun, nofun⟩

end Respaced

section Readers

variable {tokens tokens' : List Token} (line line' : Int)

theorem Ending.expect_agree (kind : Kind) (respaced : Respaced tokens tokens') :
    Agree (fun rest rest' => (kind ≠ .newline → Respaced rest rest') ∧
        Respaced (rest.dropWhile Token.isNewline) (rest'.dropWhile Token.isNewline))
      ((Ending.eof line).expect kind tokens) ((Ending.eof line').expect kind tokens') := by
  cases respaced with
  | nil => exact .error ((Token.same_eofAt line line').expected kind)
  | token same inside rest =>
    simp only [expect, ← same.kind_eq]
    split
    · exact .ok ⟨fun _ => rest, rest.dropWhile⟩
    · exact .error (same.expected kind)
  | lineEnd same ended rest =>
    have newline : _ = Kind.newline := of_decide_eq_true ended
    simp only [expect, ← same.kind_eq]
    split
    · next found => exact .ok ⟨fun inside => absurd (found.symm.trans newline) inside, rest⟩
    · exact .error (same.expected kind)

theorem Ending.expectName_agree (respaced : Respaced tokens tokens') :
    Agree (fun found found' => found.1 = found'.1 ∧ Respaced found.2.2 found'.2.2)
      ((Ending.eof line).expectName tokens) ((Ending.eof line').expectName tokens') := by
  cases respaced with
  | nil => exact .error ((Token.same_eofAt line line').expected .identifier)
  | token same inside rest =>
    simp only [expectName, ← same.lexeme]
    split
    · exact .ok ⟨rfl, rest⟩
    · exact .error (same.expected .identifier)
  | @lineEnd token token' _ _ same ended rest =>
    have newline : token.kind = .newline := of_decide_eq_true ended
    simp only [expectName, ← same.lexeme]
    split
    · next name found =>
      rw [Token.kind, found] at newline
      cases newline
    · exact .error (same.expected .identifier)

/-- The end of a line is taken together with all empty lines behind it. -/
theorem Ending.expectLineEnd_agree (respaced : Respaced tokens tokens') :
    Agree Respaced ((Ending.eof line).expectLineEnd tokens)
      ((Ending.eof line').expectLineEnd tokens') := by
  rcases (expect_agree line line' .newline respaced).cases with
    ⟨diagnostic, diagnostic', refused, refused', same⟩ | ⟨rest, rest', taken, taken', -, behind⟩
  · simp only [expectLineEnd, refused, refused']
    exact .error same
  · simp only [expectLineEnd, taken, taken']
    exact .ok behind

theorem Ending.refuseFront_missingRelation (respaced : Respaced tokens tokens') :
    ((Ending.eof line).refuseFront .missingRelation tokens).fault =
      ((Ending.eof line').refuseFront .missingRelation tokens').fault := by
  cases respaced with
  | nil => exact (Token.same_eofAt line line').missingRelation
  | token same _ _ => exact same.missingRelation
  | lineEnd same _ _ => exact same.missingRelation

namespace Formula

variable {α : Type} (meaning : Meaning α)

private theorem primary_agree {token token' : Token} (same : token.Same token') :
    Agree Eq (primary meaning token) (primary meaning token') := by
  simp only [primary, ← same.lexeme]
  split
  · exact .ok rfl
  · split
    · exact .ok rfl
    · exact .error rfl
  · exact .error same.unexpectedOperand

theorem primaryBehind_agree (sign : α → α) (respaced : Respaced tokens tokens') :
    Agree (Behind Eq) (primaryBehind meaning (.eof line) sign tokens)
      (primaryBehind meaning (.eof line') sign tokens') := by
  cases respaced with
  | nil => exact .error (Token.same_eofAt line line').unexpectedOperand
  | token same _ rest =>
    rcases (primary_agree meaning same).cases with
      ⟨diagnostic, diagnostic', refused, refused', fault⟩ | ⟨value, _, taken, taken', rfl⟩
    · simp only [primaryBehind, refused, refused']
      exact .error fault
    · simp only [primaryBehind, taken, taken']
      exact .ok ⟨rfl, rest⟩
  | @lineEnd token token' _ _ same ended _ =>
    have refuses : ∀ token : Token, token.isNewline = true →
        primary meaning token = .error (.unexpectedOperand token) := by
      intro token ended
      obtain ⟨lexeme, text, line⟩ := token
      cases lexeme <;> first | rfl | cases ended
    simp only [primaryBehind, refuses token ended, refuses token' (same.isNewline_eq ▸ ended)]
    exact .error same.unexpectedOperand

theorem operand_agree (respaced : Respaced tokens tokens') :
    Agree (Behind Eq) (operand meaning (.eof line) tokens)
      (operand meaning (.eof line') tokens') := by
  cases respaced with
  | nil => exact .error (Token.same_eofAt line line').unexpectedOperand
  | token same inside rest =>
    simp only [operand, ← same.lexeme]
    split
    · exact primaryBehind_agree line line' meaning _ rest
    · exact primaryBehind_agree line line' meaning id (.token same inside rest)
  | @lineEnd token token' _ _ same ended rest =>
    simp only [operand, ← same.lexeme]
    split
    · next sign =>
      obtain ⟨lexeme, text, line⟩ := token
      cases lexeme <;> first | cases sign | cases ended
    · exact primaryBehind_agree line line' meaning id (.lineEnd same ended rest)

private theorem operandsAfter_agree (accepts : Operator → Bool)
    (respaced : Respaced tokens tokens') :
    Agree (Behind Eq) (operandsAfter accepts meaning (.eof line) tokens)
      (operandsAfter accepts meaning (.eof line') tokens') := by
  induction size : tokens.length using Nat.strongRecOn generalizing tokens tokens' with
  | ind length induction =>
  subst size
  cases respaced with
  | nil =>
    rw [operandsAfter, operandsAfter]
    exact .ok ⟨rfl, .nil⟩
  | @token token token' rest rest' same inside further =>
    rw [operandsAfter, operandsAfter, ← same.lexeme]
    cases token.lexeme.operator? with
    | none => exact .ok ⟨rfl, .token same inside further⟩
    | some operator =>
      simp only
      cases accepted : accepts operator with
      | false =>
        simp only [Bool.false_eq_true, if_false]
        exact .ok ⟨rfl, .token same inside further⟩
      | true =>
        simp only [if_true]
        rcases (operand_agree line line' meaning further).cases with
          ⟨diagnostic, diagnostic', refused, refused', fault⟩ |
          ⟨⟨value, after⟩, ⟨_, after'⟩, taken, taken', rfl, respaced⟩
        · rw [refused, refused']
          exact .error fault
        · have shorter := Nat.lt_succ_of_lt (length_operand_lt taken)
          rw [taken, taken']
          rcases (induction _ shorter respaced rfl).cases with
            ⟨diagnostic, diagnostic', refused, refused', fault⟩ |
            ⟨⟨others, last⟩, ⟨_, last'⟩, read, read', rfl, respaced⟩
          · simp only [refused, refused']
            exact .error fault
          · simp only [read, read']
            exact .ok ⟨rfl, respaced⟩
  | @lineEnd token token' rest rest' same ended further =>
    have stops : token.lexeme.operator? = none := by
      obtain ⟨lexeme, text, line⟩ := token
      cases lexeme <;> first | rfl | cases ended
    rw [operandsAfter, operandsAfter, ← same.lexeme, stops]
    exact .ok ⟨rfl, .lineEnd same ended further⟩

theorem read_agree (accepts : Operator → Bool) (respaced : Respaced tokens tokens') :
    Agree (Behind Eq) (read accepts meaning (.eof line) tokens)
      (read accepts meaning (.eof line') tokens') := by
  rcases (operand_agree line line' meaning respaced).cases with
    ⟨diagnostic, diagnostic', refused, refused', fault⟩ |
    ⟨⟨value, rest⟩, ⟨_, rest'⟩, taken, taken', rfl, behind⟩
  · simp only [read, refused, refused']
    exact .error fault
  · rcases (operandsAfter_agree line line' meaning accepts behind).cases with
      ⟨diagnostic, diagnostic', refused, refused', fault⟩ |
      ⟨⟨others, last⟩, ⟨_, last'⟩, further, further', rfl, behind⟩
    · simp only [read, taken, taken', refused, refused']
      exact .error fault
    · simp only [read, taken, taken', further, further']
      exact .ok ⟨rfl, behind⟩

theorem expression_agree (respaced : Respaced tokens tokens') :
    Agree (Behind Eq) (expression meaning (.eof line) tokens)
      (expression meaning (.eof line') tokens') :=
  read_agree line line' meaning Operator.isArithmetic respaced

theorem condition_agree (respaced : Respaced tokens tokens') :
    Agree (Behind Eq) (condition meaning (.eof line) tokens)
      (condition meaning (.eof line') tokens') := by
  rcases (read_agree line line' meaning (fun _ => true) respaced).cases with
    ⟨diagnostic, diagnostic', refused, refused', fault⟩ |
    ⟨⟨formula, rest⟩, ⟨_, rest'⟩, taken, taken', rfl, behind⟩
  · simp only [condition, refused, refused']
    exact .error fault
  · simp only [condition, taken, taken']
    split
    · exact .ok ⟨rfl, behind⟩
    · exact .error (Ending.refuseFront_missingRelation line line' behind)

end Formula

end Readers

/-- The same code with the same names, perhaps with jumps on other lines. -/
structure Draft.Same (draft draft' : Draft) : Prop where
  code : draft.code = draft'.code
  assigned : draft.assigned = draft'.assigned
  labels : draft.labels = draft'.labels
  jumps : draft.jumps.map Prod.fst = draft'.jumps.map Prod.fst

namespace Draft.Same

variable {draft draft' : Draft}

theorem refl (draft : Draft) : draft.Same draft :=
  ⟨rfl, rfl, rfl, rfl⟩

theorem writeLine (same : draft.Same draft') (code : String) :
    (draft.writeLine code).Same (draft'.writeLine code) where
  code := congrArg (CodeBuffer.writeLine · code) same.code
  assigned := same.assigned
  labels := same.labels
  jumps := same.jumps

theorem meaning_eq (same : draft.Same draft') : draft.meaning = draft'.meaning := by
  rw [Draft.meaning, Draft.meaning, same.assigned]

theorem declare (same : draft.Same draft') (name : String) :
    (draft.declare name).Same (draft'.declare name) := by
  simp only [Draft.declare, ← same.assigned]
  split
  · exact same
  · exact ⟨congrArg (CodeBuffer.writeHeader · _) same.code, rfl, same.labels, same.jumps⟩

theorem noteJump (same : draft.Same draft') (name : String) (line line' : Int) :
    (draft.noteJump name line).Same (draft'.noteJump name line') := by
  have known : draft.jumps.any (·.1 = name) = draft'.jumps.any (·.1 = name) := by
    have mapped := congrArg (List.any · (· = name)) same.jumps
    rw [List.any_map, List.any_map] at mapped
    exact mapped
  simp only [Draft.noteJump, ← known]
  split
  · exact same
  · refine ⟨same.code, same.assigned, same.labels, ?_⟩
    simp only [List.map_append, same.jumps]
    rfl

end Draft.Same

namespace CProgram

variable {tokens tokens' : List Token} {draft draft' : Draft} (line line' : Int)

private theorem printLine_agree (precision : Int) (same : draft.Same draft')
    (respaced : Respaced tokens tokens') :
    Agree (Behind Draft.Same) (printLine precision (.eof line) draft tokens)
      (printLine precision (.eof line') draft' tokens') := by
  rcases respaced.string_cases with
    ⟨content, _, _, _, _, _, _, rfl, rfl, rest⟩ | ⟨noString, noString'⟩
  · exact .ok ⟨same.writeLine _, rest⟩
  · rw [printLine.eq_2 _ _ _ _ noString, printLine.eq_2 _ _ _ _ noString', ← same.meaning_eq]
    rcases (Formula.expression_agree line line' draft.meaning respaced).cases with
      ⟨diagnostic, diagnostic', refused, refused', fault⟩ |
      ⟨⟨formula, rest⟩, ⟨_, rest'⟩, read, read', rfl, behind⟩
    · simp only [refused, refused']
      exact .error fault
    · simp only [read, read']
      exact .ok ⟨same.writeLine _, behind⟩

theorem openLine_agree (block : Block) (same : draft.Same draft')
    (respaced : Respaced tokens tokens') :
    Agree (Behind Draft.Same) (openLine block (.eof line) draft tokens)
      (openLine block (.eof line') draft' tokens') := by
  simp only [openLine, ← same.meaning_eq]
  rcases (Formula.condition_agree line line' draft.meaning respaced).cases with
    ⟨diagnostic, diagnostic', refused, refused', fault⟩ |
    ⟨⟨formula, rest⟩, ⟨_, rest'⟩, read, read', rfl, behind⟩
  · simp only [refused, refused']
    exact .error fault
  · simp only [read, read']
    rcases (Ending.expect_agree line line' (.keyword block.separator) behind).cases with
      ⟨diagnostic, diagnostic', refused, refused', fault⟩ | ⟨rest, rest', taken, taken', behind, -⟩
    · simp only [refused, refused']
      exact .error fault
    · simp only [taken, taken']
      exact .ok ⟨same.writeLine _, behind (by simp)⟩

private theorem labelLine_agree (same : draft.Same draft') (respaced : Respaced tokens tokens') :
    Agree (Behind Draft.Same) (labelLine (.eof line) draft tokens)
      (labelLine (.eof line') draft' tokens') := by
  rcases (Ending.expectName_agree line line' respaced).cases with
    ⟨diagnostic, diagnostic', refused, refused', fault⟩ |
    ⟨⟨name, place, rest⟩, ⟨_, place', rest'⟩, taken, taken', rfl, behind⟩
  · simp only [labelLine, refused, refused']
    exact .error fault
  · simp only [labelLine, taken, taken', Ending.reachable, ← same.labels]
    split
    · exact .error rfl
    · refine .ok ⟨Draft.Same.writeLine ?_ _, behind⟩
      exact ⟨same.code, same.assigned, rfl, same.jumps⟩

private theorem gotoLine_agree (same : draft.Same draft') (respaced : Respaced tokens tokens') :
    Agree (Behind Draft.Same) (gotoLine (.eof line) draft tokens)
      (gotoLine (.eof line') draft' tokens') := by
  rcases (Ending.expectName_agree line line' respaced).cases with
    ⟨diagnostic, diagnostic', refused, refused', fault⟩ |
    ⟨⟨name, place, rest⟩, ⟨_, place', rest'⟩, taken, taken', rfl, behind⟩
  · simp only [gotoLine, refused, refused']
    exact .error fault
  · simp only [gotoLine, taken, taken']
    exact .ok ⟨(same.noteJump name place place').writeLine _, behind⟩

private theorem letLine_agree (same : draft.Same draft') (respaced : Respaced tokens tokens') :
    Agree (Behind Draft.Same) (letLine (.eof line) draft tokens)
      (letLine (.eof line') draft' tokens') := by
  rcases (Ending.expectName_agree line line' respaced).cases with
    ⟨diagnostic, diagnostic', refused, refused', fault⟩ |
    ⟨⟨name, place, rest⟩, ⟨_, place', rest'⟩, taken, taken', rfl, behind⟩
  · simp only [letLine, refused, refused']
    exact .error fault
  · have declared := same.declare name
    simp only [letLine, taken, taken', ← declared.meaning_eq]
    rcases (Ending.expect_agree line line' .assign behind).cases with
      ⟨diagnostic, diagnostic', refused, refused', fault⟩ | ⟨rest, rest', taken, taken', behind, -⟩
    · simp only [refused, refused']
      exact .error fault
    · simp only [taken, taken']
      rcases (Formula.expression_agree line line' (draft.declare name).meaning
          (behind (by simp))).cases with
        ⟨diagnostic, diagnostic', refused, refused', fault⟩ |
        ⟨⟨formula, rest⟩, ⟨_, rest'⟩, read, read', rfl, behind⟩
      · simp only [refused, refused']
        exact .error fault
      · simp only [read, read']
        exact .ok ⟨declared.writeLine _, behind⟩

private theorem inputLine_agree (same : draft.Same draft') (respaced : Respaced tokens tokens') :
    Agree (Behind Draft.Same) (inputLine (.eof line) draft tokens)
      (inputLine (.eof line') draft' tokens') := by
  rcases (Ending.expectName_agree line line' respaced).cases with
    ⟨diagnostic, diagnostic', refused, refused', fault⟩ |
    ⟨⟨name, place, rest⟩, ⟨_, place', rest'⟩, taken, taken', rfl, behind⟩
  · simp only [inputLine, refused, refused']
    exact .error fault
  · simp only [inputLine, taken, taken']
    exact .ok ⟨((((same.declare name).writeLine _).writeLine _).writeLine _).writeLine _, behind⟩

/-- The same code with the same blocks open behind it. -/
def SameLine (first second : Draft × List Block × List Token) : Prop :=
  first.1.Same second.1 ∧ Behind Eq first.2 second.2

theorem closeLine_agree (block : Block) (blocks : List Block) {token token' : Token}
    (same : draft.Same draft') (here : token.Same token') (respaced : Respaced tokens tokens') :
    Agree SameLine (closeLine block draft blocks token tokens)
      (closeLine block draft' blocks token' tokens') := by
  unfold closeLine
  split
  · split
    · exact .ok ⟨same.writeLine _, rfl, respaced⟩
    · exact .error here.invalidStatement
  · exact .error here.invalidStatement

theorem inside_agree (blocks : List Block) {result result' : Except Diagnostic (Draft × List Token)}
    (agree : Agree (Behind Draft.Same) result result') :
    Agree SameLine (inside blocks result) (inside blocks result') := by
  cases agree with
  | ok related => exact .ok ⟨related.1, rfl, related.2⟩
  | error fault => exact .error fault

private theorem line_agree (precision : Int) (blocks : List Block) {token token' : Token}
    (same : draft.Same draft') (here : token.Same token') (respaced : Respaced tokens tokens') :
    Agree SameLine (CProgram.line precision (.eof line) draft blocks token tokens)
      (CProgram.line precision (.eof line') draft' blocks token' tokens') := by
  simp only [CProgram.line, ← here.lexeme]
  split
  · exact inside_agree _ (printLine_agree line line' precision same respaced)
  · exact inside_agree _ (openLine_agree line line' .conditional same respaced)
  · exact inside_agree _ (openLine_agree line line' .loop same respaced)
  · exact closeLine_agree .conditional blocks same here respaced
  · exact closeLine_agree .loop blocks same here respaced
  · exact inside_agree _ (labelLine_agree line line' same respaced)
  · exact inside_agree _ (gotoLine_agree line line' same respaced)
  · exact inside_agree _ (letLine_agree line line' same respaced)
  · exact inside_agree _ (inputLine_agree line line' same respaced)
  · exact .error here.invalidStatement

private theorem wholeLine_agree (precision : Int) (blocks : List Block) {token token' : Token}
    (same : draft.Same draft') (here : token.Same token') (respaced : Respaced tokens tokens') :
    Agree SameLine (wholeLine precision (.eof line) draft blocks token tokens)
      (wholeLine precision (.eof line') draft' blocks token' tokens') := by
  rcases (line_agree line line' precision blocks same here respaced).cases with
    ⟨diagnostic, diagnostic', refused, refused', fault⟩ |
    ⟨⟨draft, blocks, rest⟩, ⟨draft', _, rest'⟩, written, written', same, rfl, behind⟩
  · simp only [wholeLine, refused, refused']
    exact .error fault
  · simp only [wholeLine, written, written']
    rcases (Ending.expectLineEnd_agree line line' behind).cases with
      ⟨diagnostic, diagnostic', refused, refused', fault⟩ | ⟨rest, rest', taken, taken', behind⟩
    · simp only [refused, refused']
      exact .error fault
    · simp only [taken, taken']
      exact .ok ⟨same, rfl, behind⟩

private theorem fst_firstDangling? (same : draft.Same draft') :
    (firstDangling? draft).map Prod.fst = (firstDangling? draft').map Prod.fst := by
  have found (draft : Draft) : (firstDangling? draft).map Prod.fst =
      (draft.jumps.map Prod.fst).find? fun name => !draft.labels.contains name := by
    rw [List.find?_map]
    rfl
  rw [found, found, same.jumps, same.labels]

private theorem finish_agree (same : draft.Same draft') :
    Agree Eq (finish draft) (finish draft') := by
  have finished := (same.writeLine "return 0;").writeLine "\x7d"
  have dangling := fst_firstDangling? finished
  unfold finish
  simp only
  split
  · next name line found =>
    rw [found] at dangling
    split
    · next name' line' found' =>
      rw [found'] at dangling
      obtain rfl : name = name' := Option.some.inj dangling
      exact .error rfl
    · next found' =>
      rw [found'] at dangling
      cases dangling
  · next found =>
    rw [found] at dangling
    split
    · next found' =>
      rw [found'] at dangling
      cases dangling
    · exact .ok (congrArg CodeBuffer.code finished.code)

/-- Respaced tokens are put into the same C program, or refused for the same fault. -/
theorem lines_agree (precision : Int) (blocks : List Block) (same : draft.Same draft')
    (respaced : Respaced tokens tokens') :
    Agree Eq (lines precision (.eof line) draft blocks tokens)
      (lines precision (.eof line') draft' blocks tokens') := by
  induction size : tokens.length using Nat.strongRecOn
    generalizing draft draft' blocks tokens tokens' with
  | ind length induction =>
  subst size
  cases respaced with
  | nil =>
    rw [lines, lines]
    split
    · exact finish_agree same
    · exact .error (Token.same_eofAt line line').invalidStatement
  | token here _ rest =>
    rw [lines_cons, lines_cons]
    rcases (wholeLine_agree line line' precision blocks same here rest).cases with
      ⟨diagnostic, diagnostic', refused, refused', fault⟩ |
      ⟨⟨draft, blocks, rest⟩, ⟨draft', _, rest'⟩, written, written', same, rfl, behind⟩
    · simp only [refused, refused']
      exact .error fault
    · simp only [written, written']
      exact induction _ (Nat.lt_succ_of_le (length_wholeLine_le written)) blocks same behind rfl
  | @lineEnd token token' _ _ here ended _ =>
    -- no line begins with its end
    have refuses (token : Token) (ended : token.isNewline = true) (bottom : Int) (draft : Draft)
        (rest : List Token) : wholeLine precision (.eof bottom) draft blocks token rest =
          .error (.invalidStatement token) := by
      obtain ⟨lexeme, text, line⟩ := token
      cases lexeme <;> first | rfl | cases ended
    have ended' := here.isNewline_eq ▸ ended
    rw [lines_cons, lines_cons, refuses token ended, refuses token' ended']
    exact .error here.invalidStatement

/-- Texts with respaced tokens are put into the same C program, or refused for the same fault. -/
theorem ofSource_agree (precision : Int) {source source' : String}
    (ends : (Lexer.scan (Lexer.Cursor.start source)).ending = .eof line)
    (ends' : (Lexer.scan (Lexer.Cursor.start source')).ending = .eof line')
    (respaced : Respaced (Lexer.scan (Lexer.Cursor.start source)).tokens
      (Lexer.scan (Lexer.Cursor.start source')).tokens) :
    Agree Eq (ofSource precision source) (ofSource precision source') := by
  simp only [ofSource, lookedAt, ends, ends']
  exact lines_agree line line' precision [] (.refl Draft.start) respaced.dropWhile

end CProgram

end TeenyBasic
