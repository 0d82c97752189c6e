import TeenyBasic.Proofs.OneTokenAhead
import TeenyBasic.Proofs.StraightPrograms

/-!
# The first impossible token

A program that is not grammatical is refused at the first token with which no program can go on:
the tokens before it begin a program, and together with it they do not.
-/

namespace TeenyBasic

open Grammar

/-- What stands before the end of the first line of a block. -/
def Grammar.HeaderRow (block : Block) (tokens : List Token) (condition : Condition)
    (rest : List Token) : Prop :=
  ∃ text line text' line' inner, tokens = ⟨.keyword block.opener, text, line⟩ :: inner ∧
    Comparison inner condition (⟨.keyword block.separator, text', line'⟩ :: rest)

namespace CProgram

variable {precision last : Int} {draft : Draft} {blocks : List Block} {tokens : List Token}

/-- The tokens are a statement of one line if the word is put in front of them. -/
def Behind (word : Keyword) (taken : List Token) : Prop :=
  ∀ text line, Phrase Line (⟨.keyword word, text, line⟩ :: taken)

theorem behind_of_name {word : Keyword} {taken : List Token} {named : String × Int}
    (derives : ∀ text line text' rest, ∃ statement,
      Line (⟨.keyword word, text, line⟩ :: ⟨.identifier named.1, text', named.2⟩ :: rest)
        statement rest)
    (alone : ∃ text, taken = [⟨.identifier named.1, text, named.2⟩]) : Behind word taken := by
  obtain ⟨text', rfl⟩ := alone
  intro text line rest
  exact derives text line text' rest

/-- A name that can stand wherever one is needed. -/
def someName : Token :=
  ⟨.identifier "a", "a", 1⟩

private theorem peeks_gotoLine (tokens : List Token) :
    Peeks last (fun _ taken => Behind .gotoWord taken) (Begins (Behind .gotoWord))
      (gotoLine (.eof last) draft) tokens := by
  have eq_andThen : gotoLine (.eof last) draft = andThen (naming last) fun named rest =>
      .ok ((draft.noteJump named.1 named.2).writeLine ("goto " ++ named.1 ++ ";"), rest) := by
    funext tokens
    simp only [gotoLine, andThen, naming]
    cases (Ending.eof last).expectName tokens <;> rfl
  rw [eq_andThen]
  refine (peeks_naming last tokens).map _ ?_ ?_
  · intro named taken
    exact behind_of_name fun _ _ _ _ => ⟨_, .goto⟩
  · rintro _ rfl
    exact ⟨[someName], fun _ _ _ => ⟨_, .goto⟩⟩

private theorem peeks_inputLine (tokens : List Token) :
    Peeks last (fun _ taken => Behind .inputWord taken) (Begins (Behind .inputWord))
      (inputLine (.eof last) draft) tokens := by
  have eq_andThen : inputLine (.eof last) draft = andThen (naming last) fun named rest =>
      .ok (((((draft.declare named.1).writeLine
        ("if(1 != scanf(\"%f\", &" ++ named.1 ++ ")) \x7b")).writeLine
        (named.1 ++ " = 0;")).writeLine "scanf(\"%*s\");").writeLine "\x7d", rest) := by
    funext tokens
    simp only [inputLine, andThen, naming]
    cases (Ending.eof last).expectName tokens <;> rfl
  rw [eq_andThen]
  refine (peeks_naming last tokens).map _ ?_ ?_
  · intro named taken
    exact behind_of_name fun _ _ _ _ => ⟨_, .input⟩
  · rintro _ rfl
    exact ⟨[someName], fun _ _ _ => ⟨_, .input⟩⟩

private theorem peeks_labelLine (tokens : List Token) :
    Peeks last (fun _ taken => Behind .labelWord taken) (Begins (Behind .labelWord))
      (labelLine (.eof last) draft) tokens := by
  have begins : Begins (Behind .labelWord) [] := ⟨[someName], fun _ _ _ => ⟨_, .label⟩⟩
  cases tokens with
  | nil => exact .of_error_nil (.expected .identifier) rfl begins
  | cons token rest =>
    obtain ⟨lexeme, text, line⟩ := token
    cases lexeme with
    | identifier name =>
      by_cases known : name ∈ draft.labels
      · refine .of_error_cons (.repeatedLabel rfl) ?_ begins
        intro other
        simp [labelLine, Ending.expectName, Ending.reachable, known]
      · refine .of_token
          (Draft.writeLine { draft with labels := name :: draft.labels } (name ++ ":;"))
          (fun other => ?_) fun _ _ _ => ⟨_, .label⟩
        simp [labelLine, Ending.expectName, Ending.reachable, known]
    | _ => exact .of_error_cons (.expected .identifier) (fun _ => rfl) begins

/-- The part of an assignment behind the name. -/
def valueLine (last : Int) (meaning : Meaning String) (change : Formula String → Draft) :
    Reader Draft :=
  andThen (taking last .assign) fun _ =>
    andThen (Formula.expression meaning (.eof last)) fun formula rest => .ok (change formula, rest)

private theorem peeks_valueLine (meaning : Meaning String) (change : Formula String → Draft)
    (tokens : List Token) :
    Peeks last
      (fun _ taken => ∃ sign value, sign.kind = .assign ∧ Phrase Sum value ∧ taken = sign :: value)
      (fun taken => taken = [] ∨ ∃ sign value, sign.kind = .assign ∧ Begins (Phrase Sum) value ∧
        taken = sign :: value)
      (valueLine last meaning change) tokens := by
  have valued (rest : List Token) : Peeks last
      (fun _ taken => Phrase Sum taken) (Begins (Phrase Sum))
      (andThen (Formula.expression meaning (.eof last)) fun formula rest =>
        .ok (change formula, rest)) rest :=
    (Formula.peeks_expression meaning rest).map change (fun _ _ => id) fun _ => id
  refine (peeks_taking last .assign tokens).andThen (fun _ rest _ => valued rest)
    (fun _ => .inl) ?_ ?_
  · rintro _ _ value ⟨sign, isSign, rfl⟩ begun
    exact .inr ⟨sign, value, isSign, begun, rfl⟩
  · rintro _ _ _ value ⟨sign, isSign, rfl⟩ whole
    exact ⟨sign, value, isSign, whole, rfl⟩

theorem letLine_eq_andThen :
    letLine (.eof last) draft = andThen (naming last) fun named =>
      valueLine last (draft.declare named.1).meaning fun formula =>
        (draft.declare named.1).writeLine (named.1 ++ " = " ++ formula.code ++ ";") := by
  funext tokens
  simp only [letLine, valueLine, andThen, naming, taking]
  cases (Ending.eof last).expectName tokens with
  | error diagnostic => rfl
  | ok result =>
    obtain ⟨name, line, rest⟩ := result
    simp only [Except.map]
    cases (Ending.eof last).expect .assign rest with
    | error diagnostic => rfl
    | ok rest =>
      simp only
      cases Formula.expression (draft.declare name).meaning (.eof last) rest <;> rfl

theorem behind_letWord {name text : String} {line : Int} {sign : Token} {value : List Token}
    (isSign : sign.kind = .assign) (whole : Phrase Sum value) :
    Behind .letWord (⟨.identifier name, text, line⟩ :: sign :: value) := by
  obtain ⟨lexeme, text', line'⟩ := sign
  obtain rfl : lexeme = _ := Lexeme.eq_assign_of_kind isSign
  intro _ _ rest
  obtain ⟨tree, derived⟩ := whole rest
  exact ⟨_, .assign derived⟩

private theorem peeks_letLine (tokens : List Token) :
    Peeks last (fun _ taken => Behind .letWord taken) (Begins (Behind .letWord))
      (letLine (.eof last) draft) tokens := by
  have zero : Phrase Sum [Formula.zeroToken] :=
    Formula.phrase_sum_of_row (Formula.row_of_unary Formula.phrase_zero)
  rw [letLine_eq_andThen]
  refine (peeks_naming last tokens).andThen (fun _ rest _ => peeks_valueLine _ _ rest) ?_ ?_ ?_
  · rintro _ rfl
    exact ⟨[someName, ⟨.assign, "=", 1⟩, Formula.zeroToken], behind_letWord rfl zero⟩
  · rintro named _ _ ⟨text, rfl⟩ (rfl | ⟨sign, value, isSign, ⟨more, whole⟩, rfl⟩)
    · exact ⟨[⟨.assign, "=", 1⟩, Formula.zeroToken], behind_letWord rfl zero⟩
    · exact ⟨more, behind_letWord isSign whole⟩
  · rintro named _ _ _ ⟨text, rfl⟩ ⟨sign, value, isSign, whole, rfl⟩
    exact behind_letWord isSign whole

theorem printLine_of_head? {tokens : List Token} (noString : ∀ content text line,
      tokens.head? ≠ some ⟨.string content, text, line⟩) :
    printLine precision (.eof last) draft tokens =
      andThen (Formula.expression draft.meaning (.eof last)) (fun formula rest =>
        .ok (draft.writeLine ("printf(\"%." ++ toString precision ++ "f\\n\", (float)(" ++
          formula.code ++ "));"), rest)) tokens := by
  unfold printLine
  split
  · next content text line rest => exact absurd rfl (noString content text line)
  · rw [andThen]
    cases Formula.expression draft.meaning (.eof last) tokens <;> rfl

private theorem peeks_printLine (tokens : List Token) :
    Peeks last (fun _ taken => Behind .printWord taken) (Begins (Behind .printWord))
      (printLine precision (.eof last) draft) tokens := by
  by_cases isString : ∃ content text line, tokens.head? = some ⟨.string content, text, line⟩
  · obtain ⟨content, text, line, front⟩ := isString
    obtain ⟨rest, rfl⟩ := List.head?_eq_some_iff.mp front
    exact .of_token (draft.writeLine ("printf(\"" ++ content ++ "\\n\");")) (fun _ => rfl)
      fun _ _ _ => ⟨_, .printText⟩
  · have noString : ∀ content text line,
        tokens.head? ≠ some ⟨.string content, text, line⟩ := by
      intro content text line front
      exact isString ⟨content, text, line, front⟩
    have derives {taken : List Token} (whole : Phrase Sum taken) : Behind .printWord taken := by
      intro _ _ rest
      obtain ⟨tree, derived⟩ := whole rest
      exact ⟨_, .printValue derived⟩
    refine Peeks.congr ?_ fun other front => printLine_of_head? (front ▸ noString)
    refine (Formula.peeks_expression draft.meaning tokens).map _ (fun _ _ => derives) ?_
    rintro taken ⟨more, whole⟩
    exact ⟨more, derives whole⟩

theorem openLine_eq_andThen (block : Block) :
    openLine block (.eof last) draft =
      andThen (Formula.condition draft.meaning (.eof last)) fun formula =>
        andThen (taking last (.keyword block.separator)) fun _ rest =>
          .ok (draft.writeLine (block.code ++ " (" ++ formula.code ++ ") \x7b"), rest) := by
  funext tokens
  simp only [openLine, andThen, taking]
  cases Formula.condition draft.meaning (.eof last) tokens with
  | error diagnostic => rfl
  | ok result =>
    obtain ⟨formula, rest⟩ := result
    simp only
    cases (Ending.eof last).expect (.keyword block.separator) rest <;> rfl

theorem phrase_headerRow {block : Block} {condition : List Token} {separator : Token}
    (isSeparator : separator.kind = .keyword block.separator)
    (whole : Phrase Comparison condition) (text : String) (line : Int) :
    Phrase (HeaderRow block)
      (⟨.keyword block.opener, text, line⟩ :: (condition ++ [separator])) := by
  obtain ⟨lexeme, text', line'⟩ := separator
  obtain rfl : lexeme = _ := Lexeme.eq_keyword_of_kind isSeparator
  intro rest
  obtain ⟨tree, derived⟩ := whole (⟨.keyword block.separator, text', line'⟩ :: rest)
  refine ⟨tree, text, line, text', line', _, rfl, ?_⟩
  simpa using derived

private theorem peeks_openLine (block : Block) (tokens : List Token) :
    Peeks last
      (fun _ taken => ∀ text line, Phrase (HeaderRow block)
        (⟨.keyword block.opener, text, line⟩ :: taken))
      (fun taken => ∀ text line, Begins (Phrase (HeaderRow block))
        (⟨.keyword block.opener, text, line⟩ :: taken))
      (openLine block (.eof last) draft) tokens := by
  have separated (formula : Formula String) (rest : List Token) : Peeks last
      (fun _ taken => ∃ separator, separator.kind = .keyword block.separator ∧ taken = [separator])
      (· = [])
      (andThen (taking last (.keyword block.separator)) fun _ rest =>
        .ok (draft.writeLine (block.code ++ " (" ++ formula.code ++ ") \x7b"), rest)) rest :=
    (peeks_taking last _ rest).map _ (fun _ _ => id) fun _ => id
  have completed {taken : List Token} (whole : Phrase Comparison taken) (text : String)
      (line : Int) : Begins (Phrase (HeaderRow block))
        (⟨.keyword block.opener, text, line⟩ :: taken) := by
    refine ⟨[⟨.keyword block.separator, block.separator.text, 1⟩], ?_⟩
    exact phrase_headerRow rfl whole text line
  rw [openLine_eq_andThen]
  refine (Formula.peeks_condition draft.meaning tokens).andThen
    (fun formula rest _ => separated formula rest) ?_ ?_ ?_
  · rintro taken ⟨more, whole⟩ text line
    exact (completed whole text line).of_append
  · rintro _ taken _ whole rfl text line
    rw [List.append_nil]
    exact completed whole text line
  · rintro _ _ taken _ whole ⟨separator, isSeparator, rfl⟩ text line
    exact phrase_headerRow isSeparator whole text line

/-- What stands before the end of a line, with the blocks that are open before and after it. -/
inductive Turns : List Block → List Block → List Token → Prop
  | stays {blocks taken} : Phrase Line taken → Turns blocks blocks taken
  | opens {block blocks taken} : Phrase (HeaderRow block) taken →
      Turns blocks (block :: blocks) taken
  | closes {block blocks text line} :
      Turns (block :: blocks) blocks [⟨.keyword (Block.closer block), text, line⟩]

/-- Reads what stands before the end of a line. -/
def row (precision last : Int) (draft : Draft) (blocks : List Block) : Reader (Draft × List Block)
  | [] => .error (.invalidStatement (Token.eofAt last))
  | token :: rest =>
      match line precision (.eof last) draft blocks token rest with
      | .error diagnostic => .error diagnostic
      | .ok (draft, blocks, rest) => .ok ((draft, blocks), rest)

def wholeRow (precision last : Int) (draft : Draft) (blocks : List Block) :
    Reader (Draft × List Block) :=
  andThen (row precision last draft blocks) fun result =>
    andThen (ending last) fun _ rest => .ok (result, rest)

/-- What stands before the end of a line is read with one token in sight, and turns the open blocks
into those that are given back. -/
abbrev PeeksRow (precision last : Int) (draft : Draft) (blocks : List Block) (tokens : List Token) :
    Prop :=
  Peeks last (fun result taken => Turns blocks result.2 taken)
    (fun taken => ∃ after, Begins (Turns blocks after) taken) (row precision last draft blocks)
    tokens

theorem peeks_row_of_word {after : List Block} {reader : Reader Draft}
    {done : List Token → Prop} {begun : List Token → Prop} {word : Keyword} {text : String}
    {line' : Int} {rest : List Token}
    (peeks : Peeks last (fun _ taken => done taken) begun reader rest)
    (shape : ∀ rest, line precision (.eof last) draft blocks ⟨.keyword word, text, line'⟩ rest =
      inside after (reader rest))
    (whole : ∀ taken, done taken → Turns blocks after (⟨.keyword word, text, line'⟩ :: taken))
    (start : ∀ taken, begun taken →
      Begins (Turns blocks after) (⟨.keyword word, text, line'⟩ :: taken)) :
    PeeksRow precision last draft blocks (⟨.keyword word, text, line'⟩ :: rest) := by
  have changed : Peeks last
      (fun (result : Draft × List Block) taken => result.2 = after ∧ done taken)
      begun (andThen reader fun draft rest => .ok ((draft, after), rest)) rest :=
    peeks.map (·, after) (fun _ _ isDone => ⟨rfl, isDone⟩) fun _ => id
  refine changed.behind ?_ ?_ ?_
  · intro other
    simp only [row, shape, andThen]
    cases reader other <;> rfl
  · rintro ⟨next, _⟩ taken ⟨rfl, isDone⟩
    exact whole taken isDone
  · intro taken isBegun
    exact ⟨after, start taken isBegun⟩

theorem exists_begins_turns_nil (blocks : List Block) :
    ∃ after, Begins (Turns blocks after) [] :=
  ⟨blocks, [⟨.keyword .inputWord, "INPUT", 1⟩, someName], .stays fun _ => ⟨_, .input⟩⟩

theorem peeks_row_of_refused {token : Token} {rest : List Token}
    (refused : ∀ rest, line precision (.eof last) draft blocks token rest =
      .error (.invalidStatement token)) :
    PeeksRow precision last draft blocks (token :: rest) := by
  refine .of_error_cons .invalidStatement ?_ (exists_begins_turns_nil blocks)
  intro other
  simp only [row, refused]

theorem peeks_row_of_closer {block : Block} {text : String} {line' : Int} {rest : List Token}
    (shape : ∀ rest, line precision (.eof last) draft blocks ⟨.keyword block.closer, text, line'⟩
      rest = closeLine block draft blocks ⟨.keyword block.closer, text, line'⟩ rest) :
    PeeksRow precision last draft blocks (⟨.keyword block.closer, text, line'⟩ :: rest) := by
  cases blocks with
  | nil => exact peeks_row_of_refused shape
  | cons inner outer =>
    by_cases same : inner = block
    · subst same
      refine .of_token (draft.writeLine "\x7d", outer) ?_ .closes
      intro other
      simp only [row, shape, closeLine, if_true]
    · refine peeks_row_of_refused fun rest => ?_
      rw [shape, closeLine, if_neg same]

theorem peeks_row_of_behind {word : Keyword} {text : String} {line' : Int} {rest : List Token}
    {reader : Reader Draft}
    (peeks : Peeks last (fun _ taken => Behind word taken) (Begins (Behind word)) reader rest)
    (shape : ∀ rest, line precision (.eof last) draft blocks ⟨.keyword word, text, line'⟩ rest =
      inside blocks (reader rest)) :
    PeeksRow precision last draft blocks (⟨.keyword word, text, line'⟩ :: rest) := by
  refine peeks_row_of_word peeks shape (fun taken whole => .stays (whole text line')) ?_
  rintro taken ⟨more, whole⟩
  exact ⟨more, .stays (whole text line')⟩

theorem peeks_row_of_opener (block : Block) {text : String} {line' : Int} {rest : List Token} :
    PeeksRow precision last draft blocks (⟨.keyword block.opener, text, line'⟩ :: rest) := by
  refine peeks_row_of_word (peeks_openLine block rest) (fun rest => line_opener ..)
    (fun taken whole => .opens (whole text line')) ?_
  intro taken begun
  obtain ⟨more, whole⟩ := begun text line'
  exact ⟨more, .opens whole⟩

theorem peeks_row (tokens : List Token) : PeeksRow precision last draft blocks tokens := by
  cases tokens with
  | nil => exact .of_error_nil .invalidStatement rfl (exists_begins_turns_nil blocks)
  | cons token rest =>
    obtain ⟨lexeme, text, line'⟩ := token
    cases lexeme with
    | keyword word =>
      cases word with
      | printWord => exact peeks_row_of_behind (peeks_printLine rest) fun _ => rfl
      | labelWord => exact peeks_row_of_behind (peeks_labelLine rest) fun _ => rfl
      | gotoWord => exact peeks_row_of_behind (peeks_gotoLine rest) fun _ => rfl
      | letWord => exact peeks_row_of_behind (peeks_letLine rest) fun _ => rfl
      | inputWord => exact peeks_row_of_behind (peeks_inputLine rest) fun _ => rfl
      | ifWord => exact peeks_row_of_opener .conditional
      | whileWord => exact peeks_row_of_opener .loop
      | endifWord => exact @peeks_row_of_closer _ _ _ _ .conditional _ _ _ fun _ => rfl
      | endwhileWord => exact @peeks_row_of_closer _ _ _ _ .loop _ _ _ fun _ => rfl
      | thenWord => exact peeks_row_of_refused fun _ => rfl
      | repeatWord => exact peeks_row_of_refused fun _ => rfl
    | _ => exact peeks_row_of_refused fun _ => rfl

/-- Inside the open blocks the tokens can be continued up to the end of a program. -/
def Completable (blocks : List Block) (taken : List Token) : Prop :=
  ∃ more here enclosing, Remainder (taken ++ more) here enclosing ∧
    enclosing.map Enclosing.block = blocks

theorem Completable.of_append {taken more : List Token}
    (completable : Completable blocks (taken ++ more)) : Completable blocks taken := by
  obtain ⟨further, here, enclosing, remains, same⟩ := completable
  rw [List.append_assoc] at remains
  exact ⟨more ++ further, here, enclosing, remains, same⟩

def newlineToken : Token :=
  ⟨.newline, "\n", 1⟩

theorem phrase_newline : Phrase LineEnd [newlineToken] :=
  fun _ => ⟨(), .one⟩

/-- A line in front of what can be completed. -/
theorem Turns.completable {after : List Block} {taken ends more : List Token}
    (turns : Turns blocks after taken) (ended : Phrase LineEnd ends)
    (completable : Completable after more) : Completable blocks (taken ++ ends ++ more) := by
  obtain ⟨further, here, enclosing, remains, same⟩ := completable
  obtain ⟨_, newline⟩ := ended (more ++ further)
  refine ⟨further, ?_⟩
  rw [List.append_assoc, List.append_assoc]
  cases turns with
  | stays whole =>
    obtain ⟨statement, derived⟩ := whole (ends ++ (more ++ further))
    exact ⟨statement :: here, enclosing,
      remains.cons fun _ _ others => .line derived newline others, same⟩
  | opens whole =>
    obtain ⟨condition, text, line, text', line', inner, same', derived⟩ :=
      whole (ends ++ (more ++ further))
    -- the innermost block of what remains is the one that begins here
    cases remains with
    | outermost _ => simp at same
    | inside body newline' outer =>
      simp only [List.map_cons, List.cons.injEq] at same
      obtain ⟨rfl, same⟩ := same
      rw [same']
      exact ⟨_, _, outer.cons fun _ _ others => .block derived newline body newline' others, same⟩
  | @closes block _ text line =>
    exact ⟨[], ⟨block, here⟩ :: enclosing, .inside .none newline remains, by simp [same]⟩

theorem completable_nil (blocks : List Block) : Completable blocks [] := by
  induction blocks with
  | nil => exact ⟨[], [], [], .outermost .none, rfl⟩
  | cons block blocks induction =>
    have closed := (@Turns.closes block blocks block.closer.text 1).completable phrase_newline
      induction
    exact @Completable.of_append _ [] _ closed

theorem completable_of_begins {after : List Block} {taken : List Token}
    (begun : Begins (Turns blocks after) taken) : Completable blocks taken := by
  obtain ⟨more, turns⟩ := begun
  have whole := turns.completable phrase_newline (completable_nil after)
  rw [List.append_assoc, List.append_assoc] at whole
  exact whole.of_append

/-- A whole line is read with one token in sight. -/
theorem peeks_wholeRow (tokens : List Token) :
    Peeks last
      (fun result taken => ∀ more, Completable result.2 more → Completable blocks (taken ++ more))
      (Completable blocks) (wholeRow precision last draft blocks) tokens := by
  have ended (result : Draft × List Block) (rest : List Token) : Peeks last
      (fun result' taken => result' = result ∧ Phrase LineEnd taken) (· = [])
      (andThen (ending last) fun _ rest => .ok (result, rest)) rest :=
    (peeks_ending last rest).map (fun _ => result) (fun _ _ whole => ⟨rfl, whole⟩) fun _ => id
  refine (peeks_row tokens).andThen (fun result rest _ => ended result rest) ?_ ?_ ?_
  · rintro taken ⟨after, begun⟩
    exact completable_of_begins begun
  · rintro result taken _ turns rfl
    rw [List.append_nil]
    exact completable_of_begins (.of_phrase turns)
  · rintro result _ taken ends turns ⟨rfl, whole⟩ more completable
    exact turns.completable whole completable

theorem wholeRow_cons (token : Token) (rest : List Token) :
    wholeRow precision last draft blocks (token :: rest) =
      (wholeLine precision (.eof last) draft blocks token rest).map fun result =>
        ((result.1, result.2.1), result.2.2) := by
  simp only [wholeRow, andThen, row, ending, wholeLine]
  cases line precision (.eof last) draft blocks token rest with
  | error diagnostic => rfl
  | ok result =>
    obtain ⟨next, after, middle⟩ := result
    dsimp only
    cases (Ending.eof last).expectLineEnd middle <;> rfl

theorem exists_undeclared_of_finish {diagnostic : Diagnostic}
    (refused : finish draft = .error diagnostic) :
    ∃ name line, diagnostic = .undeclaredLabel name line := by
  unfold finish at refused
  dsimp only at refused
  split at refused
  · next name line _ => exact ⟨name, line, (Except.error.inj refused).symm⟩
  · cases refused

end CProgram

namespace Grammar

end Grammar

theorem frontOf_eq_head? (last : Int) (tokens : List Token) :
    (tokens ++ [Token.eofAt last]).head? = some (frontOf last tokens) := by
  cases tokens <;> rfl

namespace Sample

/-- A condition that breaks off behind a sign, in the third line. -/
def brokenOff : String :=
  "\nINPUT a\nIF - THEN\nENDIF"

def brokenOffTokens : List Token := [
  ⟨.newline, "\n", 1⟩, ⟨.keyword .inputWord, "INPUT", 2⟩, ⟨.identifier "a", "a", 2⟩,
  ⟨.newline, "\n", 2⟩, ⟨.keyword .ifWord, "IF", 3⟩, ⟨.arithmetic .minus, "-", 3⟩,
  ⟨.keyword .thenWord, "THEN", 3⟩, ⟨.newline, "\n", 3⟩, ⟨.keyword .endifWord, "ENDIF", 4⟩,
  ⟨.newline, "\n", 4⟩]

set_option maxRecDepth 10000 in
theorem tokens_brokenOff : Lexer.tokens brokenOff = .ok (brokenOffTokens ++ [Token.eofAt 5]) := by
  cbv

theorem ofSource_brokenOff (precision : Int) :
    CProgram.ofSource precision brokenOff =
      .error (.unexpectedOperand ⟨.keyword .thenWord, "THEN", 3⟩) := by
  rw [CProgram.ofSource_eq_lines tokens_brokenOff]
  exact (CProgram.lines_cons ..).trans (CProgram.lines_cons ..)

end Sample

end TeenyBasic
