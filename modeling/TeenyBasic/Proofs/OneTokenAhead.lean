import TeenyBasic.Proofs.FormulaReading
import TeenyBasic.Proofs.GrammarKinds

/-!
# Reading with one token in sight

A reader looks at the tokens it takes and at the one behind them, and at nothing else.  If it
refuses tokens, then because of the one in front of which it stands, and what it has taken by then
could have been continued.  All this is `Peeks`, which is proved of the smallest readers and carried
over to those that read one thing after another (`Peeks.andThen`).
-/

namespace TeenyBasic

/-- The token in front, which is the end token if there is no other. -/
def frontOf (last : Int) : List Token → Token
  | [] => Token.eofAt last
  | token :: _ => token

private theorem frontOf_congr {last : Int} {tokens other : List Token}
    (same : other.head? = tokens.head?) :
    frontOf last other = frontOf last tokens := by
  cases tokens with
  | nil =>
    obtain rfl := List.head?_eq_none_iff.mp same
    rfl
  | cons token rest =>
    obtain ⟨rest', rfl⟩ := List.head?_eq_some_iff.mp same
    rfl

@[simp] theorem Ending.refuseFront_eof (last : Int) (complaint : Token → Diagnostic)
    (tokens : List Token) :
    (Ending.eof last).refuseFront complaint tokens = complaint (frontOf last tokens) := by
  cases tokens <;> rfl

/-- The diagnostic is a complaint about the token. -/
inductive Diagnostic.About (token : Token) : Diagnostic → Prop
  | expected (wanted : Kind) : About token (.expected wanted token)
  | invalidStatement : About token (.invalidStatement token)
  | missingRelation : About token (.missingRelation token)
  | unexpectedOperand : About token (.unexpectedOperand token)
  | unassignedVariable {name : String} (named : token.lexeme = .identifier name) :
      About token (.unassignedVariable name token.line)
  | repeatedLabel {name : String} (named : token.lexeme = .identifier name) :
      About token (.repeatedLabel name token.line)

/-- What reads something from the front of tokens. -/
abbrev Reader (α : Type) : Type :=
  List Token → Except Diagnostic (α × List Token)

variable {α β : Type} {last : Int}

/-- At these tokens a reader looks no further than at the token behind those it takes.  The tokens
taken are `done`; those in front of the token it complains about have `begun` well. -/
structure Peeks (last : Int) (done : α → List Token → Prop) (begun : List Token → Prop)
    (reader : Reader α) (tokens : List Token) : Prop where
  ok : ∀ value rest, reader tokens = .ok (value, rest) → ∃ taken, tokens = taken ++ rest ∧
    done value taken ∧
    ∀ other, other.head? = rest.head? → reader (taken ++ other) = .ok (value, other)
  error : ∀ diagnostic, reader tokens = .error diagnostic → ∃ taken rest, tokens = taken ++ rest ∧
    diagnostic.About (frontOf last rest) ∧ begun taken ∧
    ∀ other, other.head? = rest.head? → reader (taken ++ other) = .error diagnostic

theorem head?_append_congr {taken rest other : List Token} (same : other.head? = rest.head?) :
    (taken ++ other).head? = (taken ++ rest).head? := by
  rw [List.head?_append, List.head?_append, same]

namespace Peeks

variable {done done' : α → List Token → Prop} {begun begun' : List Token → Prop}
  {reader : Reader α} {tokens : List Token}

theorem imp (peeks : Peeks last done begun reader tokens)
    (whole : ∀ value rest taken, reader tokens = .ok (value, rest) → done value taken →
      done' value taken)
    (start : ∀ taken, begun taken → begun' taken) : Peeks last done' begun' reader tokens where
  ok := by
    intro value rest read
    obtain ⟨taken, same, taken_done, onward⟩ := peeks.ok value rest read
    exact ⟨taken, same, whole value rest taken read taken_done, onward⟩
  error := by
    intro diagnostic refused
    obtain ⟨taken, rest, same, about, taken_begun, onward⟩ := peeks.error diagnostic refused
    exact ⟨taken, rest, same, about, start taken taken_begun, onward⟩

/-- A reader that takes nothing and is content. -/
theorem of_ok (value : α) (read : ∀ other, other.head? = tokens.head? →
      reader other = .ok (value, other)) (nothing : done value []) :
    Peeks last done begun reader tokens where
  ok := by
    intro value' rest taken
    obtain ⟨rfl, rfl⟩ := Prod.mk.inj (Except.ok.inj ((read tokens rfl).symm.trans taken))
    exact ⟨[], rfl, nothing, read⟩
  error := by
    intro diagnostic refused
    cases (read tokens rfl).symm.trans refused

/-- A reader that takes nothing and complains. -/
theorem of_error {diagnostic : Diagnostic} (refused : ∀ other, other.head? = tokens.head? →
      reader other = .error diagnostic) (about : diagnostic.About (frontOf last tokens))
    (nothing : begun []) : Peeks last done begun reader tokens where
  ok := by
    intro value rest taken
    cases (refused tokens rfl).symm.trans taken
  error := by
    intro diagnostic' refused'
    obtain rfl := Except.error.inj ((refused tokens rfl).symm.trans refused')
    exact ⟨[], tokens, rfl, about, nothing, refused⟩

theorem of_error_nil {diagnostic : Diagnostic} (about : diagnostic.About (frontOf last []))
    (refused : reader [] = .error diagnostic) (nothing : begun []) :
    Peeks last done begun reader [] := by
  refine of_error ?_ about nothing
  intro other empty
  obtain rfl := List.head?_eq_none_iff.mp empty
  exact refused

theorem of_error_cons {token : Token} {rest : List Token} {diagnostic : Diagnostic}
    (about : diagnostic.About token)
    (refused : ∀ other, reader (token :: other) = .error diagnostic) (nothing : begun []) :
    Peeks last done begun reader (token :: rest) := by
  refine of_error ?_ about nothing
  rintro (_ | ⟨token', other⟩) front
  · simp at front
  · obtain rfl := Option.some.inj front
    exact refused other

/-- A reader that takes one token, whatever is behind it. -/
theorem of_token {token : Token} {rest : List Token} (value : α)
    (read : ∀ other, reader (token :: other) = .ok (value, other)) (whole : done value [token]) :
    Peeks last done begun reader (token :: rest) where
  ok := by
    intro value' rest' taken
    obtain ⟨rfl, rfl⟩ := Prod.mk.inj (Except.ok.inj ((read rest).symm.trans taken))
    exact ⟨[token], rfl, whole, fun other _ => read other⟩
  error := by
    intro diagnostic refused
    cases (read rest).symm.trans refused

theorem congr {reader' : Reader α} (peeks : Peeks last done begun reader' tokens)
    (same : ∀ other, other.head? = tokens.head? → reader other = reader' other) :
    Peeks last done begun reader tokens where
  ok := by
    intro value rest read
    rw [same tokens rfl] at read
    obtain ⟨taken, rfl, taken_done, onward⟩ := peeks.ok value rest read
    refine ⟨taken, rfl, taken_done, fun other front => ?_⟩
    rw [same _ (head?_append_congr front), onward other front]
  error := by
    intro diagnostic refused
    rw [same tokens rfl] at refused
    obtain ⟨taken, rest, rfl, about, taken_begun, onward⟩ := peeks.error diagnostic refused
    refine ⟨taken, rest, rfl, about, taken_begun, fun other front => ?_⟩
    rw [same _ (head?_append_congr front), onward other front]

/-- A reader that goes on behind a token. -/
theorem behind {token : Token} {rest : List Token} {reader' : Reader α}
    (peeks : Peeks last done' begun' reader' rest)
    (same : ∀ other, reader (token :: other) = reader' other)
    (whole : ∀ value taken, done' value taken → done value (token :: taken))
    (start : ∀ taken, begun' taken → begun (token :: taken)) :
    Peeks last done begun reader (token :: rest) where
  ok := by
    intro value rest' read
    rw [same] at read
    obtain ⟨taken, rfl, taken_done, onward⟩ := peeks.ok value rest' read
    refine ⟨token :: taken, rfl, whole value taken taken_done, fun other front => ?_⟩
    rw [List.cons_append, same, onward other front]
  error := by
    intro diagnostic refused
    rw [same] at refused
    obtain ⟨taken, rest', rfl, about, taken_begun, onward⟩ := peeks.error diagnostic refused
    refine ⟨token :: taken, rest', rfl, about, start taken taken_begun, fun other front => ?_⟩
    rw [List.cons_append, same, onward other front]

end Peeks

/-- Reads two things, one after the other. -/
def andThen (first : Reader α) (next : α → Reader β) : Reader β :=
  fun tokens =>
    match first tokens with
    | .error diagnostic => .error diagnostic
    | .ok (value, rest) => next value rest

/-- Readers that look one token ahead do so one after the other. -/
theorem Peeks.andThen {done : α → List Token → Prop} {begun : List Token → Prop}
    {done' : α → β → List Token → Prop} {begun' : α → List Token → Prop}
    {done'' : β → List Token → Prop} {begun'' : List Token → Prop} {first : Reader α}
    {next : α → Reader β} {tokens : List Token} (front : Peeks last done begun first tokens)
    (back : ∀ value rest, first tokens = .ok (value, rest) →
      Peeks last (done' value) (begun' value) (next value) rest)
    (start : ∀ taken, begun taken → begun'' taken)
    (further : ∀ value taken more, done value taken → begun' value more → begun'' (taken ++ more))
    (whole : ∀ value value' taken more, done value taken → done' value value' more →
      done'' value' (taken ++ more)) :
    Peeks last done'' begun'' (andThen first next) tokens where
  ok := by
    intro value' rest read
    unfold TeenyBasic.andThen at read
    cases firstRead : first tokens with
    | error diagnostic => simp [firstRead] at read
    | ok result =>
      obtain ⟨value, middle⟩ := result
      rw [firstRead] at read
      obtain ⟨taken, rfl, taken_done, onward⟩ := front.ok value middle firstRead
      obtain ⟨more, rfl, more_done, onward'⟩ := (back value middle firstRead).ok value' rest read
      refine ⟨taken ++ more, by simp, whole value value' taken more taken_done more_done, ?_⟩
      intro other same
      rw [TeenyBasic.andThen, List.append_assoc, onward _ (head?_append_congr same)]
      exact onward' other same
  error := by
    intro diagnostic refused
    unfold TeenyBasic.andThen at refused
    cases firstRead : first tokens with
    | error diagnostic' =>
      rw [firstRead] at refused
      obtain rfl := Except.error.inj refused
      obtain ⟨taken, rest, rfl, about, taken_begun, onward⟩ := front.error _ firstRead
      refine ⟨taken, rest, rfl, about, start taken taken_begun, ?_⟩
      intro other same
      rw [TeenyBasic.andThen, onward other same]
    | ok result =>
      obtain ⟨value, middle⟩ := result
      rw [firstRead] at refused
      obtain ⟨taken, rfl, taken_done, onward⟩ := front.ok value middle firstRead
      obtain ⟨more, rest, rfl, about, more_begun, onward'⟩ :=
        (back value middle firstRead).error diagnostic refused
      refine ⟨taken ++ more, rest, by simp, about,
        further value taken more taken_done more_begun, ?_⟩
      intro other same
      rw [TeenyBasic.andThen, List.append_assoc, onward _ (head?_append_congr same)]
      exact onward' other same

/-- A reader that gives another value for what it reads. -/
theorem Peeks.map {done : α → List Token → Prop} {begun : List Token → Prop}
    {done' : β → List Token → Prop} {begun' : List Token → Prop} {reader : Reader α}
    {tokens : List Token} (peeks : Peeks last done begun reader tokens) (change : α → β)
    (whole : ∀ value taken, done value taken → done' (change value) taken)
    (start : ∀ taken, begun taken → begun' taken) :
    Peeks last done' begun'
      (TeenyBasic.andThen reader fun value rest => .ok (change value, rest)) tokens := by
  have nothing (value : α) (rest : List Token) : Peeks last
      (fun value' taken => value' = change value ∧ taken = []) (fun _ => False)
      (fun rest => .ok (change value, rest)) rest :=
    .of_ok (change value) (fun _ _ => rfl) ⟨rfl, rfl⟩
  refine peeks.andThen (fun value rest _ => nothing value rest) start
    (fun _ _ _ _ => False.elim) ?_
  rintro value _ taken _ taken_done ⟨rfl, rfl⟩
  rw [List.append_nil]
  exact whole value taken taken_done

/-- The tokens are derived as they stand, whatever is behind them. -/
def Phrase {τ : Type} (derives : List Token → τ → List Token → Prop) (taken : List Token) : Prop :=
  ∀ rest, ∃ tree, derives (taken ++ rest) tree rest

def Begins (phrase : List Token → Prop) (taken : List Token) : Prop :=
  ∃ more, phrase (taken ++ more)

theorem Begins.of_phrase {phrase : List Token → Prop} {taken : List Token} (whole : phrase taken) :
    Begins phrase taken :=
  ⟨[], by rwa [List.append_nil]⟩

theorem Begins.of_append {phrase : List Token → Prop} {taken more : List Token}
    (begun : Begins phrase (taken ++ more)) : Begins phrase taken := by
  obtain ⟨further, whole⟩ := begun
  exact ⟨more ++ further, by rwa [← List.append_assoc]⟩

def taking (last : Int) (kind : Kind) : Reader Unit :=
  fun tokens => ((Ending.eof last).expect kind tokens).map ((), ·)

/-- Takes an identifier, giving its name and line. -/
def naming (last : Int) : Reader (String × Int) :=
  fun tokens => ((Ending.eof last).expectName tokens).map fun result =>
    ((result.1, result.2.1), result.2.2)

/-- Takes the end of a line and all empty lines behind it. -/
def ending (last : Int) : Reader Unit :=
  fun tokens => ((Ending.eof last).expectLineEnd tokens).map ((), ·)

theorem peeks_taking (last : Int) (kind : Kind) (tokens : List Token) :
    Peeks last (fun _ taken => ∃ token, token.kind = kind ∧ taken = [token]) (· = [])
      (taking last kind) tokens := by
  cases tokens with
  | nil => exact .of_error_nil (.expected kind) rfl rfl
  | cons token rest =>
    by_cases same : token.kind = kind
    · refine .of_token () ?_ ⟨token, same, rfl⟩
      intro other
      simp [taking, Ending.expect, same, Except.map]
    · refine .of_error_cons (.expected kind) ?_ rfl
      intro other
      simp only [taking, Ending.expect, if_neg same, Except.map]

theorem peeks_naming (last : Int) (tokens : List Token) :
    Peeks last (fun named taken => ∃ text, taken = [⟨.identifier named.1, text, named.2⟩]) (· = [])
      (naming last) tokens := by
  cases tokens with
  | nil => exact .of_error_nil (.expected .identifier) rfl rfl
  | cons token rest =>
    obtain ⟨lexeme, text, line⟩ := token
    cases lexeme with
    | identifier name => exact .of_token (name, line) (fun _ => rfl) ⟨text, rfl⟩
    | _ => exact .of_error_cons (.expected .identifier) (fun _ => rfl) rfl

theorem Grammar.Settled.congr {tokens other : List Token} (settled : Settled tokens)
    (same : other.head? = tokens.head?) : Settled other := by
  cases other with
  | nil => rfl
  | cons token rest =>
    obtain ⟨rest', rfl⟩ := List.head?_eq_some_iff.mp same.symm
    unfold Settled at *
    cases ends : token.isNewline with
    | true =>
      rw [List.dropWhile_cons_of_pos ends] at settled
      have shorter := (List.dropWhile_suffix Token.isNewline (l := rest')).length_le
      rw [settled, List.length_cons] at shorter
      omega
    | false => rw [List.dropWhile_cons_of_neg (by simp [ends])]

theorem Grammar.settled_dropWhile (tokens : List Token) :
    Settled (tokens.dropWhile Token.isNewline) := by
  induction tokens with
  | nil => rfl
  | cons token rest induction =>
    cases ends : token.isNewline with
    | true => rwa [List.dropWhile_cons_of_pos ends]
    | false =>
      rw [List.dropWhile_cons_of_neg (by simp [ends])]
      exact List.dropWhile_cons_of_neg (by simp [ends])

private theorem Grammar.newline_of_all {newlines : List Token}
    (all : ∀ token ∈ newlines, token.isNewline = true) (text : String) (line : Int)
    (rest : List Token) : Newline (⟨.newline, text, line⟩ :: (newlines ++ rest)) rest := by
  induction newlines generalizing text line with
  | nil => exact .one
  | cons token newlines induction =>
    obtain ⟨lexeme, text', line'⟩ := token
    have kind : lexeme.kind = .newline := by
      exact of_decide_eq_true (all _ List.mem_cons_self)
    obtain rfl := Lexeme.eq_newline_of_kind kind
    exact .more (induction (fun other member => all other (List.mem_cons_of_mem _ member)) _ _)

theorem peeks_ending (last : Int) (tokens : List Token) :
    Peeks last (fun _ taken => Phrase Grammar.LineEnd taken) (· = []) (ending last) tokens := by
  have ending_eq : ending last = andThen (taking last .newline) fun _ rest =>
      .ok ((), rest.dropWhile Token.isNewline) := by
    funext tokens
    simp only [ending, andThen, taking, Ending.expectLineEnd]
    cases (Ending.eof last).expect .newline tokens <;> rfl
  have dropping (rest : List Token) : Peeks last
      (fun _ taken => ∀ token ∈ taken, token.isNewline = true) (fun _ => False)
      (fun rest => .ok ((), rest.dropWhile Token.isNewline)) rest := by
    constructor
    · rintro _ _ ⟨⟩
      have all := List.all_eq_true.mp (List.all_takeWhile (p := Token.isNewline) (l := rest))
      refine ⟨rest.takeWhile Token.isNewline, List.takeWhile_append_dropWhile.symm, all, ?_⟩
      intro other same
      rw [List.dropWhile_append_of_pos all, (Grammar.settled_dropWhile rest).congr same]
    · rintro _ ⟨⟩
  rw [ending_eq]
  refine (peeks_taking last .newline tokens).andThen (fun _ rest _ => dropping rest)
    (fun _ => id) (fun _ _ _ _ => False.elim) ?_
  rintro _ _ _ more ⟨⟨lexeme, text, line⟩, kind, rfl⟩ all rest
  obtain rfl : lexeme = _ := Lexeme.eq_newline_of_kind kind
  exact ⟨(), Grammar.newline_of_all all text line rest⟩

namespace Formula

open Grammar

variable {accepts : Operator → Bool} {meaning : Meaning α} {tokens : List Token}

/-- A row of operands has been read, with or without a comparison in it. -/
def Row (compared : Bool) (taken : List Token) : Prop :=
  ∀ rest, OpenComparison compared (taken ++ rest) rest

/-- An operand that can stand wherever one is needed. -/
def zeroToken : Token :=
  ⟨.number 0, "0", 1⟩

theorem phrase_zero : Phrase Unary [zeroToken] :=
  fun _ => ⟨_, .unsigned .number⟩

theorem row_of_unary {taken : List Token} (whole : Phrase Unary taken) : Row false taken := by
  intro rest
  obtain ⟨tree, derived⟩ := whole rest
  exact .none (.first (.first derived))

/-- A row goes on with an operator and an operand. -/
theorem Row.step {compared : Bool} {taken more : List Token} {token : Token} {operator : Operator}
    (row : Row compared taken) (found : token.lexeme.operator? = some operator)
    (whole : Phrase Unary more) :
    Row (compared || !operator.isArithmetic) (taken ++ token :: more) := by
  intro rest
  obtain ⟨tree, derived⟩ := whole rest
  have before := row (token :: (more ++ rest))
  rw [List.append_assoc]
  exact before.step found derived

theorem phrase_sum_of_row {taken : List Token} (row : Row false taken) : Phrase Sum taken := by
  intro rest
  cases row rest with
  | none sum => exact sum.close

theorem phrase_comparison_of_row {taken : List Token} (row : Row true taken) :
    Phrase Comparison taken :=
  fun rest => (row rest).close

/-- Every row begins a comparison: one more relation will do. -/
theorem begins_comparison_of_row {compared : Bool} {taken : List Token}
    (row : Row compared taken) : Begins (Phrase Comparison) taken := by
  refine ⟨[⟨.relation .equal, "==", 1⟩, zeroToken], phrase_comparison_of_row ?_⟩
  have further := @Row.step _ _ _ ⟨.relation .equal, "==", 1⟩ (.relation .equal) row rfl phrase_zero
  rwa [Operator.isArithmetic, Bool.not_false, Bool.or_true] at further

theorem peeks_primaryBehind (meaning : Meaning α) (sign : α → α) (tokens : List Token) :
    Peeks last (fun _ taken => Phrase Primary taken) (· = [])
      (primaryBehind meaning (.eof last) sign) tokens := by
  have refused {token : Token} {rest : List Token} {diagnostic : Diagnostic}
      (about : diagnostic.About token) (fails : primary meaning token = .error diagnostic) :
      Peeks last (fun _ taken => Phrase Primary taken) (· = [])
        (primaryBehind meaning (.eof last) sign) (token :: rest) := by
    refine .of_error_cons about ?_ rfl
    intro other
    simp only [primaryBehind, fails]
  cases tokens with
  | nil => exact .of_error_nil .unexpectedOperand rfl rfl
  | cons token rest =>
    obtain ⟨lexeme, text, line⟩ := token
    cases lexeme with
    | number value =>
      exact .of_token (sign (meaning.number value)) (fun _ => rfl) fun _ => ⟨_, .number⟩
    | identifier name =>
      cases known : meaning.lookup name with
      | none =>
        refine refused (.unassignedVariable rfl) ?_
        simp [primary, known]
      | some value =>
        refine .of_token (sign value) (fun _ => ?_) fun _ => ⟨_, .identifier⟩
        simp only [primaryBehind, primary, known]
    | _ => exact refused .unexpectedOperand rfl

private theorem peeks_operand (meaning : Meaning α) (tokens : List Token) :
    Peeks last (fun _ taken => Phrase Unary taken) (Begins (Phrase Unary))
      (operand meaning (.eof last)) tokens := by
  have begins : Begins (Phrase Unary) [] := ⟨[zeroToken], phrase_zero⟩
  -- behind a sign only a number or a variable can stand, which may be missing
  have signed {token : Token} {rest : List Token} {sign : α → α}
      (found : sign? meaning token.lexeme = some sign)
      (derives : ∀ taken, Phrase Primary taken → Phrase Unary (token :: taken)) :
      Peeks last (fun _ taken => Phrase Unary taken) (Begins (Phrase Unary))
        (operand meaning (.eof last)) (token :: rest) := by
    refine (peeks_primaryBehind meaning sign rest).behind ?_ (fun _ => derives) ?_
    · intro other
      simp only [operand, found]
    · rintro _ rfl
      exact ⟨[zeroToken], derives [zeroToken] fun _ => ⟨_, .number⟩⟩
  cases tokens with
  | nil => exact .of_error_nil .unexpectedOperand rfl begins
  | cons token rest =>
    obtain ⟨lexeme, text, line⟩ := token
    cases found : sign? meaning lexeme with
    | none =>
      refine ((peeks_primaryBehind meaning id _).imp ?_ ?_).congr ?_
      · intro _ _ taken _ whole rest
        obtain ⟨tree, derived⟩ := whole rest
        exact ⟨tree, .unsigned derived⟩
      · rintro _ rfl
        exact begins
      · rintro (_ | ⟨other, rest'⟩) front
        · simp at front
        · obtain rfl := Option.some.inj front
          simp only [operand, found]
    | some sign =>
      refine signed found ?_
      intro taken whole rest
      obtain ⟨tree, derived⟩ := whole rest
      unfold sign? at found
      split at found
      · exact ⟨_, .positive derived⟩
      · exact ⟨_, .negative derived⟩
      · cases found

/-- The tokens go on with a row: operators, each with an operand behind it. -/
def Extends (others : List (Operator × α)) (taken : List Token) : Prop :=
  ∀ compared before, Row compared before →
    Row (compared || others.any fun step => !step.1.isArithmetic) (before ++ taken)

/-- The tokens can be continued to ones that go on with a row.  A comparison gets into the row only
if one is accepted. -/
def BeginsExtension (accepts : Operator → Bool) (taken : List Token) : Prop :=
  ∃ more, ∀ compared before, Row compared before →
    ∃ compared', Row compared' (before ++ (taken ++ more)) ∧
      (compared' = true → compared = true ∨ ∃ relation, accepts (.relation relation) = true)

/-- A row that is read is an operand and what goes on with it. -/
def WholeRow (formula : Formula α) (taken : List Token) : Prop :=
  ∃ first others, taken = first ++ others ∧ Phrase Unary first ∧ Extends formula.rest others

/-- What is read of a row begins an operand, or goes on with a row behind one. -/
def BeginsRow (accepts : Operator → Bool) (taken : List Token) : Prop :=
  Begins (Phrase Unary) taken ∨
    ∃ first others, taken = first ++ others ∧ Phrase Unary first ∧ BeginsExtension accepts others

private theorem read_eq_andThen (ending : Ending) :
    read accepts meaning ending = andThen (operand meaning ending) fun first =>
      andThen (operandsAfter accepts meaning ending) fun others rest =>
        .ok (⟨first, others⟩, rest) := by
  funext tokens
  unfold read andThen
  cases operand meaning ending tokens with
  | error _ => rfl
  | ok taken =>
    obtain ⟨first, rest⟩ := taken
    dsimp only
    cases operandsAfter accepts meaning ending rest <;> rfl

/-- Reading a row looks one token ahead if going on behind its first operand does. -/
theorem peeks_read_of
    (inner : ∀ value after, operand meaning (.eof last) tokens = .ok (value, after) →
      Peeks last Extends (BeginsExtension accepts) (operandsAfter accepts meaning (.eof last))
        after) :
    Peeks last WholeRow (BeginsRow accepts) (read accepts meaning (.eof last)) tokens := by
  have onward (value : α) (after : List Token)
      (taken : operand meaning (.eof last) tokens = .ok (value, after)) :
      Peeks last (fun (formula : Formula α) taken => Extends formula.rest taken)
        (BeginsExtension accepts)
        (andThen (operandsAfter accepts meaning (.eof last)) fun others rest =>
          .ok (Formula.mk value others, rest)) after :=
    (inner value after taken).map (Formula.mk value) (fun _ _ => id) fun _ => id
  rw [read_eq_andThen]
  refine (peeks_operand meaning tokens).andThen onward (fun _ => .inl) ?_ ?_
  · intro value first others whole begun
    exact .inr ⟨first, others, rfl, whole, begun⟩
  · intro value formula first others whole extended
    exact ⟨first, others, rfl, whole, extended⟩

theorem Extends.cons {first : α} {others : List (Operator × α)} {token : Token}
    {operator : Operator} {taken more : List Token}
    (found : token.lexeme.operator? = some operator) (whole : Phrase Unary taken)
    (extended : Extends others more) :
    Extends ((operator, first) :: others) (token :: (taken ++ more)) := by
  intro compared before row
  have further := extended _ _ (row.step found whole)
  simpa [Bool.or_assoc] using further

theorem BeginsExtension.cons {token : Token} {operator : Operator} {taken : List Token}
    (found : token.lexeme.operator? = some operator) (accepted : accepts operator = true)
    (begun : BeginsRow accepts taken) : BeginsExtension accepts (token :: taken) := by
  have compares (compared : Bool) (both : (compared || !operator.isArithmetic) = true) :
      compared = true ∨ ∃ relation, accepts (.relation relation) = true := by
    cases operator with
    | arithmetic operator => exact .inl (by simpa [Operator.isArithmetic] using both)
    | relation relation => exact .inr ⟨relation, accepted⟩
  rcases begun with ⟨more, whole⟩ | ⟨first, others, rfl, whole, more, extended⟩
  · refine ⟨more, fun compared before row => ⟨_, row.step found whole, compares compared⟩⟩
  · refine ⟨more, fun compared before row => ?_⟩
    obtain ⟨compared', row', given⟩ := extended _ _ (row.step found whole)
    refine ⟨compared', by simpa using row', fun isTrue => ?_⟩
    rcases given isTrue with both | exists_relation
    · exact compares compared both
    · exact .inr exists_relation

theorem peeks_of_stops (stops : Stops accepts tokens) :
    Peeks last Extends (BeginsExtension accepts) (operandsAfter accepts meaning (.eof last))
      tokens := by
  have stays : Extends ([] : List (Operator × α)) [] := by
    intro compared before row
    simpa using row
  refine .of_ok [] (fun other front => operandsAfter_of_stops ?_) stays
  rintro token rest operator rfl found
  obtain ⟨rest', rfl⟩ := List.head?_eq_some_iff.mp front.symm
  exact stops token rest' operator rfl found

private theorem peeks_operandsAfter (accepts : Operator → Bool) (meaning : Meaning α)
    (tokens : List Token) :
    Peeks last Extends (BeginsExtension accepts) (operandsAfter accepts meaning (.eof last))
      tokens := by
  -- a row may go on behind every operand, so the induction is on how many tokens are left
  induction count : tokens.length using Nat.strongRecOn generalizing tokens with
  | ind count induction =>
    cases tokens with
    | nil => exact peeks_of_stops nofun
    | cons token rest =>
      cases found : token.lexeme.operator? with
      | none => exact peeks_of_stops (stops_of_operator?_eq_none found)
      | some operator =>
        cases accepted : accepts operator with
        | false =>
          refine peeks_of_stops ?_
          rintro _ _ other ⟨⟩ found'
          obtain rfl := Option.some.inj (found.symm.trans found')
          exact accepted
        | true =>
          have row : Peeks last WholeRow (BeginsRow accepts)
              (read accepts meaning (.eof last)) rest := by
            refine peeks_read_of fun value after taken => induction after.length ?_ after rfl
            have shorter := length_operand_lt taken
            rw [← count, List.length_cons]
            omega
          have onward : Peeks last
              (fun others taken => ∃ formula : Formula α,
                others = (operator, formula.first) :: formula.rest ∧ WholeRow formula taken)
              (BeginsRow accepts)
              (andThen (read accepts meaning (.eof last)) fun formula rest =>
                .ok ((operator, formula.first) :: formula.rest, rest)) rest :=
            row.map (fun formula => (operator, formula.first) :: formula.rest)
              (fun formula _ whole => ⟨formula, rfl, whole⟩) fun _ => id
          refine onward.behind ?_ ?_ fun _ => .cons found accepted
          · intro other
            rw [operandsAfter_operator found accepted, andThen]
            cases read accepts meaning (.eof last) other <;> rfl
          · rintro _ _ ⟨formula, rfl, first, others, rfl, whole, extended⟩
            exact .cons found whole extended

theorem peeks_read (accepts : Operator → Bool) (meaning : Meaning α) (tokens : List Token) :
    Peeks last WholeRow (BeginsRow accepts) (read accepts meaning (.eof last)) tokens :=
  peeks_read_of fun _ after _ => peeks_operandsAfter accepts meaning after

theorem WholeRow.row {formula : Formula α} {taken : List Token} (whole : WholeRow formula taken) :
    Row formula.compares taken := by
  obtain ⟨first, others, rfl, whole, extended⟩ := whole
  simpa [compares] using extended false first (row_of_unary whole)

theorem BeginsRow.exists_row {taken : List Token} (begun : BeginsRow accepts taken) :
    ∃ more compared, Row compared (taken ++ more) ∧
      (compared = true → ∃ relation, accepts (.relation relation) = true) := by
  rcases begun with ⟨more, whole⟩ | ⟨first, others, rfl, whole, more, extended⟩
  · exact ⟨more, false, row_of_unary whole, nofun⟩
  · obtain ⟨compared, row, given⟩ := extended false first (row_of_unary whole)
    refine ⟨more, compared, by simpa using row, fun isTrue => ?_⟩
    rcases given isTrue with isFalse | accepted
    · cases isFalse
    · exact accepted

/-- An expression is read with one token in sight. -/
theorem peeks_expression (meaning : Meaning α) (tokens : List Token) :
    Peeks last (fun _ taken => Phrase Sum taken) (Begins (Phrase Sum))
      (expression meaning (.eof last)) tokens := by
  refine (peeks_read Operator.isArithmetic meaning tokens).imp ?_ ?_
  · intro formula rest taken read whole
    have row := whole.row
    rw [compares_eq_false_of_expression read] at row
    exact phrase_sum_of_row row
  · intro taken begun
    obtain ⟨more, compared, row, given⟩ := begun.exists_row
    cases compared with
    | false => exact ⟨more, phrase_sum_of_row row⟩
    | true =>
      obtain ⟨relation, accepted⟩ := given rfl
      cases accepted

/-- Behind the row of a condition a comparison must have been read. -/
def compared (last : Int) (formula : Formula α) : Reader (Formula α) :=
  fun tokens =>
    if formula.compares then .ok (formula, tokens)
    else .error (.missingRelation (frontOf last tokens))

private theorem condition_eq_andThen (meaning : Meaning α) :
    condition meaning (.eof last) =
      andThen (read (fun _ => true) meaning (.eof last)) (compared last) := by
  funext tokens
  rw [condition, andThen]
  cases read (fun _ => true) meaning (.eof last) tokens with
  | error diagnostic => rfl
  | ok result =>
    dsimp only
    rw [Ending.refuseFront_eof]
    rfl

private theorem peeks_compared (formula : Formula α) (tokens : List Token) :
    Peeks last (fun _ taken => formula.compares = true ∧ taken = []) (· = [])
      (compared last formula) tokens := by
  cases isTrue : formula.compares with
  | true =>
    refine .of_ok formula (fun other _ => ?_) ⟨rfl, rfl⟩
    rw [compared, if_pos isTrue]
  | false =>
    refine .of_error (fun other front => ?_) .missingRelation rfl
    rw [compared, isTrue, frontOf_congr front]
    rfl

/-- A condition is read with one token in sight. -/
theorem peeks_condition (meaning : Meaning α) (tokens : List Token) :
    Peeks last (fun _ taken => Phrase Comparison taken) (Begins (Phrase Comparison))
      (condition meaning (.eof last)) tokens := by
  rw [condition_eq_andThen]
  refine (peeks_read (fun _ => true) meaning tokens).andThen
    (fun formula rest _ => peeks_compared formula rest) ?_ ?_ ?_
  · intro taken begun
    obtain ⟨more, compared, row, -⟩ := begun.exists_row
    exact (begins_comparison_of_row row).of_append
  · rintro formula taken _ whole rfl
    rw [List.append_nil]
    exact begins_comparison_of_row whole.row
  · rintro formula _ taken _ whole ⟨isTrue, rfl⟩
    have row := whole.row
    rw [isTrue] at row
    rw [List.append_nil]
    exact phrase_comparison_of_row row

end Formula

end TeenyBasic
