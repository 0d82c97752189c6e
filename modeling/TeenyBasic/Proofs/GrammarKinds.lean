import TeenyBasic.Proofs.Grammar

/-!
# The grammar speaks about kinds

What the grammar derives from tokens it also derives from other tokens of the same kinds, whatever
stands behind them.  If not only the kinds but the lexemes are the same, the trees differ in their
lines only.
-/

namespace TeenyBasic

private theorem Lexeme.eq_arithmetic_of_kind {lexeme : Lexeme} {operator : Arithmetic}
    (same : lexeme.kind = .arithmetic operator) : lexeme = .arithmetic operator := by
  cases lexeme <;> simp_all [Lexeme.kind]

private theorem Lexeme.eq_relation_of_kind {lexeme : Lexeme} {relation : Relation}
    (same : lexeme.kind = .relation relation) : lexeme = .relation relation := by
  cases lexeme <;> simp_all [Lexeme.kind]

theorem Lexeme.eq_newline_of_kind {lexeme : Lexeme} (same : lexeme.kind = .newline) :
    lexeme = .newline := by
  cases lexeme <;> simp_all [Lexeme.kind]

private theorem Lexeme.exists_identifier_of_kind {lexeme : Lexeme}
    (same : lexeme.kind = .identifier) :
    ∃ name, lexeme = .identifier name := by
  cases lexeme <;> simp_all [Lexeme.kind]

private theorem Lexeme.exists_string_of_kind {lexeme : Lexeme} (same : lexeme.kind = .string) :
    ∃ content, lexeme = .string content := by
  cases lexeme <;> simp_all [Lexeme.kind]

private theorem Lexeme.exists_number_of_kind {lexeme : Lexeme} (same : lexeme.kind = .number) :
    ∃ value, lexeme = .number value := by
  cases lexeme <;> simp_all [Lexeme.kind]

def Expression.Alike (first second : Expression) : Prop :=
  first.unplaced = second.unplaced

def Condition.Alike (first second : Condition) : Prop :=
  first.unplaced = second.unplaced

def Statement.Alike (first second : Statement) : Prop :=
  first.unplaced = second.unplaced

def Statement.AllAlike (first second : List Statement) : Prop :=
  unplacedAll first = unplacedAll second

theorem Expression.Alike.binary {operator : Arithmetic} {left left' right right' : Expression}
    (sameLeft : left'.Alike left) (sameRight : right'.Alike right) :
    (Expression.binary operator left' right').Alike (.binary operator left right) := by
  unfold Alike at *
  rw [unplaced, unplaced, sameLeft, sameRight]

theorem Condition.Alike.compare {relation : Relation} {left left' right right' : Expression}
    (sameLeft : left'.Alike left) (sameRight : right'.Alike right) :
    (Condition.compare relation left' right').Alike (.compare relation left right) := by
  unfold Alike Expression.Alike at *
  rw [unplaced, unplaced, sameLeft, sameRight]

theorem Condition.Alike.chain {relation : Relation} {left left' : Condition}
    {right right' : Expression} (sameLeft : left'.Alike left) (sameRight : right'.Alike right) :
    (Condition.chain relation left' right').Alike (.chain relation left right) := by
  unfold Alike Expression.Alike at *
  rw [unplaced, unplaced, sameLeft, sameRight]

theorem Statement.Alike.block {kind : Block} {condition condition' : Condition}
    {body body' : List Statement} (sameCondition : condition'.Alike condition)
    (sameBody : AllAlike body' body) :
    (Statement.block kind condition' body').Alike (.block kind condition body) := by
  unfold Alike AllAlike Condition.Alike at *
  rw [unplaced, unplaced, sameCondition, sameBody]

theorem Statement.AllAlike.cons {statement statement' : Statement} {rest rest' : List Statement}
    (first : statement'.Alike statement) (others : AllAlike rest' rest) :
    AllAlike (statement' :: rest') (statement :: rest) := by
  unfold Alike AllAlike at *
  rw [unplacedAll, unplacedAll, first, others]

namespace Grammar

variable {τ σ υ : Type} {derives : List Token → τ → List Token → Prop} {alike : τ → τ → Prop}
  {derives' : List Token → σ → List Token → Prop} {alike' : σ → σ → Prop}
  {derives'' : List Token → υ → List Token → Prop} {alike'' : υ → υ → Prop}
  {tokens middle rest : List Token}

/-- The tokens in front of `rest` are no end tokens, and others of the same kinds have a tree as
well.  The trees are alike if the lexemes are the same. -/
def Retold (derives : List Token → τ → List Token → Prop) (alike : τ → τ → Prop)
    (tokens : List Token) (tree : τ) (rest : List Token) : Prop :=
  ∃ taken, tokens = taken ++ rest ∧ (∀ token ∈ taken, token.kind ≠ .eof) ∧
    ∀ other behind, other.map Token.kind = taken.map Token.kind →
      ∃ tree', derives (other ++ behind) tree' behind ∧
        (other.map Token.lexeme = taken.map Token.lexeme → alike tree' tree)

theorem Retold.nil {tree : τ} (derived : ∀ tokens, derives tokens tree tokens)
    (same : alike tree tree) : Retold derives alike tokens tree tokens := by
  refine ⟨[], rfl, by simp, ?_⟩
  intro other behind kinds
  rw [List.map_nil, List.map_eq_nil_iff] at kinds
  subst kinds
  exact ⟨tree, derived behind, fun _ => same⟩

theorem Retold.single {token : Token} {tree : τ} (noEnd : token.kind ≠ .eof)
    (given : ∀ other behind, other.kind = token.kind →
      ∃ tree', derives (other :: behind) tree' behind ∧
        (other.lexeme = token.lexeme → alike tree' tree)) :
    Retold derives alike (token :: rest) tree rest := by
  refine ⟨[token], rfl, by simpa using noEnd, ?_⟩
  intro other behind kinds
  simp only [List.map_cons, List.map_nil, List.map_eq_singleton_iff] at kinds
  obtain ⟨other, rfl, kind⟩ := kinds
  obtain ⟨tree', derived, same⟩ := given other behind kind
  refine ⟨tree', derived, fun lexemes => same ?_⟩
  simpa using lexemes

/-- What is derived from one part after the other can be replaced part by part. -/
theorem Retold.append {first : τ} {second : σ} (join : τ → σ → υ)
    (front : Retold derives alike tokens first middle)
    (back : Retold derives' alike' middle second rest)
    (derived : ∀ {tokens middle rest first second}, derives tokens first middle →
      derives' middle second rest → derives'' tokens (join first second) rest)
    (same : ∀ {first' second'}, alike first' first → alike' second' second →
      alike'' (join first' second') (join first second)) :
    Retold derives'' alike'' tokens (join first second) rest := by
  obtain ⟨taken, rfl, noEnd, retell⟩ := front
  obtain ⟨further, rfl, noEnd', retell'⟩ := back
  refine ⟨taken ++ further, by simp, ?_, ?_⟩
  · intro token member
    rcases List.mem_append.mp member with member | member
    · exact noEnd token member
    · exact noEnd' token member
  · intro other behind kinds
    rw [List.map_append, List.map_eq_append_iff] at kinds
    obtain ⟨other, more, rfl, kinds, kinds'⟩ := kinds
    obtain ⟨first', derivedFirst, sameFirst⟩ := retell other (more ++ behind) kinds
    obtain ⟨second', derivedSecond, sameSecond⟩ := retell' more behind kinds'
    refine ⟨join first' second', ?_, ?_⟩
    · rw [List.append_assoc]
      exact derived derivedFirst derivedSecond
    · intro lexemes
      rw [List.map_append, List.map_append] at lexemes
      have lengths : (other.map Token.lexeme).length = (taken.map Token.lexeme).length := by
        simpa using congrArg List.length kinds
      obtain ⟨lexemes, lexemes'⟩ := List.append_inj lexemes lengths
      exact same (sameFirst lexemes) (sameSecond lexemes')

theorem Retold.imp {tree : τ} (next : τ → σ) (told : Retold derives alike tokens tree rest)
    (derived : ∀ {tokens tree rest}, derives tokens tree rest → derives' tokens (next tree) rest)
    (same : ∀ {tree'}, alike tree' tree → alike' (next tree') (next tree)) :
    Retold derives' alike' tokens (next tree) rest := by
  obtain ⟨taken, rfl, noEnd, retell⟩ := told
  refine ⟨taken, rfl, noEnd, ?_⟩
  intro other behind kinds
  obtain ⟨tree', derivedOther, sameOther⟩ := retell other behind kinds
  exact ⟨next tree', derived derivedOther, fun lexemes => same (sameOther lexemes)⟩

/-- A token that is all of its kind stands in front. -/
def Fixed (lexeme : Lexeme) (tokens : List Token) (_ : Unit) (rest : List Token) : Prop :=
  ∃ text line, tokens = ⟨lexeme, text, line⟩ :: rest

/-- An identifier stands in front, with its name and line. -/
def Named (tokens : List Token) (name : String × Int) (rest : List Token) : Prop :=
  ∃ text, tokens = ⟨.identifier name.1, text, name.2⟩ :: rest

theorem retold_fixed {lexeme : Lexeme} (alone : ∀ other, other.kind = lexeme.kind → other = lexeme)
    (noEnd : lexeme.kind ≠ .eof) (text : String) (line : Int) :
    Retold (Fixed lexeme) (fun _ _ => True) (⟨lexeme, text, line⟩ :: rest) () rest := by
  refine .single noEnd ?_
  rintro ⟨other, text', line'⟩ behind kind
  obtain rfl := alone other kind
  exact ⟨(), ⟨text', line', rfl⟩, fun _ => trivial⟩

theorem retold_keyword (word : Keyword) (text : String) (line : Int) :
    Retold (Fixed (.keyword word)) (fun _ _ => True) (⟨.keyword word, text, line⟩ :: rest) ()
      rest :=
  retold_fixed (fun _ => Lexeme.eq_keyword_of_kind) (by simp [Lexeme.kind]) text line

theorem retold_named (name text : String) (line : Int) :
    Retold Named (fun first second => first.1 = second.1)
      (⟨.identifier name, text, line⟩ :: rest) (name, line) rest := by
  refine .single (by simp [Token.kind, Lexeme.kind]) ?_
  rintro ⟨other, text', line'⟩ behind kind
  obtain ⟨name', rfl⟩ : ∃ name', other = .identifier name' := Lexeme.exists_identifier_of_kind kind
  refine ⟨(name', line'), ⟨text', rfl⟩, fun lexemes => ?_⟩
  simpa using lexemes

theorem retold_arithmetic (operator : Arithmetic) (text : String) (line : Int) :
    Retold (Fixed (.arithmetic operator)) (fun _ _ => True)
      (⟨.arithmetic operator, text, line⟩ :: rest) () rest :=
  retold_fixed (fun _ => Lexeme.eq_arithmetic_of_kind) (by simp [Lexeme.kind]) text line

theorem retold_relation (relation : Relation) (text : String) (line : Int) :
    Retold (Fixed (.relation relation)) (fun _ _ => True)
      (⟨.relation relation, text, line⟩ :: rest) () rest :=
  retold_fixed (fun _ => Lexeme.eq_relation_of_kind) (by simp [Lexeme.kind]) text line

theorem retold_newline (text : String) (line : Int) :
    Retold (Fixed .newline) (fun _ _ => True) (⟨.newline, text, line⟩ :: rest) () rest :=
  retold_fixed (fun _ => Lexeme.eq_newline_of_kind) (by simp [Lexeme.kind]) text line

/-- The line end as a production with an empty tree. -/
def LineEnd (tokens : List Token) (_ : Unit) (rest : List Token) : Prop :=
  Newline tokens rest

theorem Newline.retold (ends : Newline tokens rest) :
    Retold LineEnd (fun _ _ => True) tokens () rest := by
  induction ends with
  | one =>
    refine (retold_newline _ _).imp id ?_ fun _ => trivial
    rintro _ _ _ ⟨text, line, rfl⟩
    exact .one
  | more _ induction =>
    refine (retold_newline _ _).append (fun _ _ => ()) induction ?_ fun _ _ => trivial
    rintro _ _ _ _ _ ⟨text, line, rfl⟩ others
    exact .more others

theorem Primary.retold {tree : Expression} (derived : Primary tokens tree rest) :
    Retold Primary Expression.Alike tokens tree rest := by
  cases derived with
  | @number value _ text line =>
    refine .single (by simp [Token.kind, Lexeme.kind]) ?_
    rintro ⟨other, text', line'⟩ behind kind
    obtain ⟨value', rfl⟩ : ∃ value', other = .number value' := Lexeme.exists_number_of_kind kind
    refine ⟨_, .number, fun lexemes => ?_⟩
    obtain rfl := Lexeme.number.inj lexemes
    rfl
  | @identifier name _ text line =>
    refine (retold_named name text line).imp (fun named => Expression.read named.1 named.2) ?_ ?_
    · rintro _ _ _ ⟨text, rfl⟩
      exact .identifier
    · intro named same
      simp [Expression.Alike, Expression.unplaced, same]

theorem Unary.retold {tree : Expression} (derived : Unary tokens tree rest) :
    Retold Unary Expression.Alike tokens tree rest := by
  cases derived with
  | unsigned derived => exact derived.retold.imp id .unsigned id
  | positive derived =>
    refine (retold_arithmetic .plus _ _).append (fun _ => Expression.positive) derived.retold ?_ ?_
    · rintro _ _ _ _ _ ⟨text, line, rfl⟩ inner
      exact .positive inner
    · intro _ operand _ same
      exact congrArg Expression.positive same
  | negative derived =>
    refine (retold_arithmetic .minus _ _).append (fun _ => Expression.negative) derived.retold ?_ ?_
    · rintro _ _ _ _ _ ⟨text, line, rfl⟩ inner
      exact .negative inner
    · intro _ operand _ same
      exact congrArg Expression.negative same

/-- What stands behind an operator may be replaced together with it. -/
theorem Retold.behind {lexeme : Lexeme} {right : τ}
    (operator : Retold (Fixed lexeme) (fun _ _ => True) tokens () middle)
    (told : Retold derives alike middle right rest) :
    Retold (fun tokens tree rest => ∃ text line middle, tokens = ⟨lexeme, text, line⟩ :: middle ∧
      derives middle tree rest) alike tokens right rest := by
  refine operator.append (fun _ => id) told ?_ (fun _ => id)
  rintro _ _ _ _ _ ⟨text, line, rfl⟩ inner
  exact ⟨text, line, _, rfl, inner⟩

theorem Term.retold {tree : Expression} (derived : Term tokens tree rest) :
    Retold Term Expression.Alike tokens tree rest := by
  induction derived with
  | first derived => exact derived.retold.imp id .first id
  | @further _ _ _ _ operator _ _ _ binds derived induction =>
    refine induction.append (Expression.binary operator)
      ((retold_arithmetic operator _ _).behind derived.retold) ?_ .binary
    rintro _ _ _ _ _ left ⟨text, line, middle, rfl, right⟩
    exact .further left binds right

theorem Sum.retold {tree : Expression} (derived : Sum tokens tree rest) :
    Retold Sum Expression.Alike tokens tree rest := by
  induction derived with
  | first derived => exact derived.retold.imp id .first id
  | @further _ _ _ _ operator _ _ _ binds derived induction =>
    refine induction.append (Expression.binary operator)
      ((retold_arithmetic operator _ _).behind derived.retold) ?_ .binary
    rintro _ _ _ _ _ left ⟨text, line, middle, rfl, right⟩
    exact .further left binds right

theorem Comparison.retold {tree : Condition} (derived : Comparison tokens tree rest) :
    Retold Comparison Condition.Alike tokens tree rest := by
  induction derived with
  | @first _ _ _ _ relation _ _ left right =>
    refine left.retold.append (Condition.compare relation)
      ((retold_relation relation _ _).behind right.retold) ?_ .compare
    rintro _ _ _ _ _ left ⟨text, line, middle, rfl, right⟩
    exact .first left right
  | @further _ _ _ _ relation _ _ _ right induction =>
    refine induction.append (Condition.chain relation)
      ((retold_relation relation _ _).behind right.retold) ?_ .chain
    rintro _ _ _ _ _ left ⟨text, line, middle, rfl, right⟩
    exact .further left right

theorem Line.retold {statement : Statement} (derived : Line tokens statement rest) :
    Retold Line Statement.Alike tokens statement rest := by
  cases derived with
  | @printText content _ _ _ text' line' =>
    have string : Retold (fun tokens content rest => ∃ text line,
        tokens = ⟨.string content, text, line⟩ :: rest) (fun first second => first = second)
        (⟨.string content, text', line'⟩ :: rest) content rest := by
      refine .single (by simp [Token.kind, Lexeme.kind]) ?_
      rintro ⟨other, text', line'⟩ behind kind
      obtain ⟨content', rfl⟩ : ∃ content', other = .string content' :=
        Lexeme.exists_string_of_kind kind
      exact ⟨content', ⟨text', line', rfl⟩, fun lexemes => Lexeme.string.inj lexemes⟩
    refine ((retold_keyword .printWord _ _).behind string).imp
      (fun content => Statement.action (.printText content)) ?_ ?_
    · rintro _ _ _ ⟨_, _, _, rfl, _, _, rfl⟩
      exact .printText
    · rintro _ rfl
      rfl
  | printValue value =>
    refine ((retold_keyword .printWord _ _).behind value.retold).imp
      (fun value => Statement.action (.printValue value)) ?_ ?_
    · rintro _ _ _ ⟨_, _, _, rfl, value⟩
      exact .printValue value
    · intro _ same
      exact congrArg (fun value => Statement.action (.printValue value)) same
  | @label name _ _ _ text' line' =>
    refine ((retold_keyword .labelWord _ _).behind (retold_named name text' line')).imp
      (fun named => Statement.label named.1 named.2) ?_ ?_
    · rintro _ _ _ ⟨_, _, _, rfl, _, rfl⟩
      exact .label
    · intro named same
      exact congrArg (Statement.label · 0) same
  | @goto name _ _ _ text' line' =>
    refine ((retold_keyword .gotoWord _ _).behind (retold_named name text' line')).imp
      (fun named => Statement.goto named.1 named.2) ?_ ?_
    · rintro _ _ _ ⟨_, _, _, rfl, _, rfl⟩
      exact .goto
    · intro named same
      exact congrArg (Statement.goto · 0) same
  | @assign name _ _ _ _ _ text' line' _ _ value =>
    have assign {rest : List Token} {text line} : Retold (Fixed .assign) (fun _ _ => True)
        (⟨.assign, text, line⟩ :: rest) () rest :=
      retold_fixed (fun _ => Lexeme.eq_assign_of_kind) (by simp [Lexeme.kind]) text line
    refine ((retold_keyword .letWord _ _).behind (retold_named name text' line')).append
      (fun named value => Statement.action (.assign named.1 value)) (assign.behind value.retold)
      ?_ ?_
    · rintro _ _ _ _ _ ⟨_, _, _, rfl, _, rfl⟩ ⟨_, _, _, rfl, value⟩
      exact .assign value
    · intro named value sameName sameValue
      unfold Statement.Alike Expression.Alike at *
      simp [Statement.unplaced, Action.unplaced, sameName, sameValue]
  | @input name _ _ _ text' line' =>
    refine ((retold_keyword .inputWord _ _).behind (retold_named name text' line')).imp
      (fun named => Statement.action (.input named.1)) ?_ ?_
    · rintro _ _ _ ⟨_, _, _, rfl, _, rfl⟩
      exact .input
    · intro named same
      exact congrArg (fun name => Statement.action (.input name)) same

/-- A statement that takes a single line, with the end of the line. -/
inductive WholeLine : List Token → Statement → List Token → Prop
  | intro {tokens middle rest statement} : Line tokens statement middle → Newline middle rest →
      WholeLine tokens statement rest

inductive Header (block : Block) : List Token → Condition → List Token → Prop
  | intro {tokens middle inner condition text line text' line'} :
      Comparison tokens condition (⟨.keyword block.separator, text', line'⟩ :: middle) →
      Newline middle inner →
      Header block (⟨.keyword block.opener, text, line⟩ :: tokens) condition inner

inductive Footer (block : Block) : List Token → Unit → List Token → Prop
  | intro {middle rest text line} : Newline middle rest →
      Footer block (⟨.keyword block.closer, text, line⟩ :: middle) () rest

theorem WholeLine.retold {statement : Statement} (whole : WholeLine tokens statement rest) :
    Retold WholeLine Statement.Alike tokens statement rest := by
  cases whole with
  | intro first ends =>
    exact first.retold.append (fun statement _ => statement) ends.retold .intro fun same _ => same

theorem Header.retold {block : Block} {condition : Condition}
    (opens : Header block tokens condition rest) :
    Retold (Header block) Condition.Alike tokens condition rest := by
  cases opens with
  | intro compared ends =>
    refine ((retold_keyword block.opener _ _).behind compared.retold).append
      (fun condition _ => condition) ((retold_keyword block.separator _ _).behind ends.retold) ?_
      fun same _ => same
    rintro _ _ _ _ _ ⟨_, _, _, rfl, compared⟩ ⟨_, _, _, rfl, ends⟩
    exact .intro compared ends

theorem Footer.retold {block : Block} (closes : Footer block tokens () rest) :
    Retold (Footer block) (fun _ _ => True) tokens () rest := by
  cases closes with
  | intro ends =>
    refine ((retold_keyword block.closer _ _).behind ends.retold).imp id ?_ fun _ => trivial
    rintro _ _ _ ⟨_, _, _, rfl, ends⟩
    exact .intro ends

/-- What stands behind the first line of a block, up to the end of its last line. -/
inductive Inside (block : Block) : List Token → List Statement → List Token → Prop
  | intro {tokens last rest body} : Statements tokens body last → Footer block last () rest →
      Inside block tokens body rest

theorem WholeLine.cons {statement : Statement} {statements : List Statement}
    (first : WholeLine tokens statement middle) (others : Statements middle statements rest) :
    Statements tokens (statement :: statements) rest := by
  cases first with
  | intro first ends => exact .line first ends others

/-- A block with the end of its last line. -/
inductive WholeBlock : List Token → Statement → List Token → Prop
  | intro {block tokens middle rest condition body} : Header block tokens condition middle →
      Inside block middle body rest → WholeBlock tokens (.block block condition body) rest

theorem WholeBlock.cons {statement : Statement} {statements : List Statement}
    (first : WholeBlock tokens statement middle) (others : Statements middle statements rest) :
    Statements tokens (statement :: statements) rest := by
  rcases first with ⟨⟨compared, ends⟩, ⟨inner, ⟨ends'⟩⟩⟩
  exact .block compared ends inner ends' others

theorem Statements.retold {statements : List Statement}
    (derived : Statements tokens statements rest) :
    Retold Statements Statement.AllAlike tokens statements rest := by
  induction derived with
  | none => exact .nil (fun _ => .none) rfl
  | line first ends others induction =>
    exact (WholeLine.intro first ends).retold.append List.cons induction WholeLine.cons .cons
  | @block block _ _ _ _ _ _ _ _ _ _ _ _ _ _ _ compared ends _ ends' _ bodyInduction
      induction =>
    have filled := bodyInduction.append (fun body _ => body) (Footer.intro ends').retold
      Inside.intro fun same _ => same
    refine Retold.append List.cons ?_ induction WholeBlock.cons .cons
    exact (Header.intro compared ends).retold.append (Statement.block block) filled
      WholeBlock.intro .block

/-- A program may be replaced as a whole. -/
theorem Program.retold {tree : List Statement} (derived : Program tokens tree) :
    Retold (fun tokens tree rest => rest = [] → Program tokens tree) Statement.AllAlike tokens
      tree [] := by
  induction derived with
  | statements derived =>
    refine derived.retold.imp id ?_ id
    rintro _ _ _ derived rfl
    exact .statements derived
  | newline derived induction =>
    refine (retold_newline _ _).append (fun _ => id) induction ?_ fun _ => id
    rintro _ _ _ _ _ ⟨text, line, rfl⟩ derived empty
    exact .newline (derived empty)

theorem Program.kind_ne_eof {tree : List Statement} (derived : Program tokens tree) :
    ∀ token ∈ tokens, token.kind ≠ .eof := by
  obtain ⟨taken, same, noEnd, -⟩ := derived.retold
  rw [List.append_nil] at same
  exact same ▸ noEnd

end Grammar

end TeenyBasic
