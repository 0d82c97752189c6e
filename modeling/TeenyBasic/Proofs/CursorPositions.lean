import Mathlib.Logic.Relation
import TeenyBasic.Proofs.TokenPortions

/-!
# Where the cursor stands

A cursor moves by one thing only: it takes the next character, and a line feed takes it to the next
line (`Cursor.advance?`).  `Cursor.next?` reads a token that way, one character after the other,
with no answer if a character is taken where none is left.  It always has an answer, the one of
`Cursor.next` (`Cursor.next?_eq_some`), so whatever every single move keeps is kept by tokens, read
or refused, and by every request to a session: how the cursor's line follows from its place in the
text (`Cursor.StandsAt`).

Every text ends with a line feed, and no fault makes a cursor jump over one.  So no string and no
exclamation mark is ever the last thing in a text, wherever a session goes on reading after a fault.
-/

namespace TeenyBasic

namespace Lexer

namespace Cursor

def current (cursor : Cursor) : Option Char :=
  cursor.rest.head?

/-- The character behind the next one, if there is one. -/
def peek (cursor : Cursor) : Option Char :=
  cursor.rest.tail.head?

/-- Takes the next character.  There is no answer at the end of the text. -/
def advance? (cursor : Cursor) : Option Cursor :=
  match cursor.rest with
  | [] => none
  | character :: rest =>
      some ⟨rest, if character = '\n' then cursor.line + 1 else cursor.line⟩

@[simp] theorem advance?_cons {character : Char} (inLine : character ≠ '\n') (rest : List Char)
    (line : Nat) : advance? ⟨character :: rest, line⟩ = some ⟨rest, line⟩ := by
  simp [advance?, inLine]

private theorem length_advance?_lt {cursor after : Cursor} (taken : cursor.advance? = some after) :
    after.rest.length < cursor.rest.length := by
  obtain ⟨text, line⟩ := cursor
  cases text with
  | nil => cases taken
  | cons character rest =>
    cases taken
    exact Nat.lt_succ_self _

/-- Takes characters as long as the next one, or the lack of one, passes a test. -/
def advanceWhile? (test : Option Char → Bool) (cursor : Cursor) : Option Cursor :=
  if test cursor.current then
    match _taken : cursor.advance? with
    | none => none
    | some after => advanceWhile? test after
  else some cursor
termination_by cursor.rest.length
decreasing_by exact length_advance?_lt _taken

/-- The characters between a cursor and a later one. -/
def upTo (cursor last : Cursor) : List Char :=
  cursor.rest.take (cursor.rest.length - last.rest.length)

end Cursor

def Attempt.reading (attempt : Attempt) (line : Nat) : Except Diagnostic Token × Cursor :=
  match attempt.outcome with
  | .ok (lexeme, text) => (.ok ⟨lexeme, text, line⟩, ⟨attempt.rest, line⟩)
  | .error fault => (.error ⟨line, .lexical fault⟩, ⟨attempt.rest, line⟩)

namespace Cursor

def skip? (cursor : Cursor) : Option Cursor := do
  let cursor ← cursor.advanceWhile? fun next => next.any isSpacing
  if cursor.current = some '#' then
    cursor.advanceWhile? fun next => next ≠ some '\n' && next ≠ none
  else return cursor

def readSign? (lexeme : Lexeme) (text : String) (cursor : Cursor) :
    Option (Except Diagnostic Token × Cursor) := do
  let after ← cursor.advance?
  return (.ok ⟨lexeme, text, cursor.line⟩, after)

/-- Reads an operator that means something else when `=` follows. -/
def readOperator? (alone joined : Lexeme) (text : String) (cursor : Cursor) :
    Option (Except Diagnostic Token × Cursor) := do
  let after ← cursor.advance?
  if after.current = some '=' then
    let last ← after.advance?
    return (.ok ⟨joined, text ++ "=", cursor.line⟩, last)
  else return (.ok ⟨alone, text, cursor.line⟩, after)

/-- Reads `!=` after a look at its second character. -/
def readUnequal? (cursor : Cursor) : Option (Except Diagnostic Token × Cursor) :=
  if cursor.peek = some '=' then do
    let after ← cursor.advance?
    let last ← after.advance?
    return (.ok ⟨.relation .unequal, "!=", cursor.line⟩, last)
  else some (.error ⟨cursor.line, .lexical (.loneExclamation cursor.peek)⟩, cursor)

/-- Reads a string; a fault is reported on the line that was reached. -/
def readString? (cursor : Cursor) : Option (Except Diagnostic Token × Cursor) := do
  let opened ← cursor.advance?
  let closing ← opened.advanceWhile? fun next => next.any isContent
  let content := String.ofList (opened.upTo closing)
  match closing.current with
  | none => return (.error ⟨closing.line, .lexical .unterminatedString⟩, closing)
  | some character =>
      if character = '"' then
        let after ← closing.advance?
        return (.ok ⟨.string content, content, cursor.line⟩, after)
      else return (.error ⟨closing.line, .lexical (.illegalInString character)⟩, closing)

/-- Reads a number; a fault is reported on the line that was reached. -/
def readNumber? (cursor : Cursor) : Option (Except Diagnostic Token × Cursor) := do
  let whole ← cursor.advanceWhile? fun next => next.any Number.isDigit
  let digits := cursor.upTo whole
  if whole.current = some '.' then
    let point ← whole.advance?
    if point.current.any Number.isDigit then
      let last ← point.advanceWhile? fun next => next.any Number.isDigit
      let fraction := point.upTo last
      return (.ok ⟨.number (numberValue digits fraction), String.ofList (digits ++ '.' :: fraction),
        cursor.line⟩, last)
    else return (.error ⟨point.line, .lexical .illegalInNumber⟩, point)
  else return (.ok ⟨.number (numberValue digits []), String.ofList digits, cursor.line⟩, whole)

def readWord? (cursor : Cursor) : Option (Except Diagnostic Token × Cursor) := do
  let last ← cursor.advanceWhile? fun next => next.any isLetter
  let word := String.ofList (cursor.upTo last)
  return (.ok ⟨wordLexeme word, word, cursor.line⟩, last)

/-- Reads the token that begins with the next character. -/
def readAt? (first : Char) (cursor : Cursor) : Option (Except Diagnostic Token × Cursor) :=
  match first with
  | '\n' => cursor.readSign? .newline "\n"
  | '+' => cursor.readSign? (.arithmetic .plus) "+"
  | '-' => cursor.readSign? (.arithmetic .minus) "-"
  | '*' => cursor.readSign? (.arithmetic .times) "*"
  | '/' => cursor.readSign? (.arithmetic .divide) "/"
  | '=' => cursor.readOperator? .assign (.relation .equal) "="
  | '<' => cursor.readOperator? (.relation .less) (.relation .lessEqual) "<"
  | '>' => cursor.readOperator? (.relation .greater) (.relation .greaterEqual) ">"
  | '!' => cursor.readUnequal?
  | '"' => cursor.readString?
  | _ =>
      if Number.isDigit first then cursor.readNumber?
      else if isLetter first then cursor.readWord?
      else some (.error ⟨cursor.line, .lexical (.unknownCharacter first)⟩, cursor)

/-- Reads the next token one character after the other.  There is no answer if a character is taken
at the end of the text. -/
def next? (cursor : Cursor) : Option (Except Diagnostic Token × Cursor) := do
  let cursor ← cursor.skip?
  match cursor.current with
  | none => return (.ok (Token.eofAt cursor.line), cursor)
  | some first => cursor.readAt? first

section Readers

variable {test : Option Char → Bool} {text rest : List Char} {first : Char} {line : Nat}

private theorem advanceWhile?_of_test {cursor after : Cursor} (passes : test cursor.current = true)
    (taken : cursor.advance? = some after) :
    cursor.advanceWhile? test = after.advanceWhile? test := by
  rw [advanceWhile?, if_pos passes]
  split
  · next none => cases taken.symm.trans none
  · next other =>
    cases taken.symm.trans other
    rfl

theorem advanceWhile?_of_not_test {cursor : Cursor} (fails : test cursor.current = false) :
    cursor.advanceWhile? test = some cursor := by
  rw [advanceWhile?, fails]
  rfl

/-- A test that fails at the end of the text takes no character there, and one that fails at a line
feed stays on its line. -/
theorem advanceWhile?_eq_some (atEnd : test none = false) (atFeed : test (some '\n') = false) :
    advanceWhile? test ⟨text, line⟩ =
      some ⟨text.dropWhile fun character => test (some character), line⟩ := by
  induction text with
  | nil => exact advanceWhile?_of_not_test atEnd
  | cons character text induction =>
    cases outcome : test (some character) with
    | true =>
      have inLine : character ≠ '\n' := by
        rintro rfl
        cases outcome.symm.trans atFeed
      rw [advanceWhile?_of_test outcome (advance?_cons inLine text line), induction,
        List.dropWhile_cons, if_pos outcome]
    | false =>
      rw [advanceWhile?_of_not_test outcome, List.dropWhile_cons, if_neg (by simp [outcome])]

@[simp] theorem advanceWhile?_any (isMember : Char → Bool) (atFeed : isMember '\n' = false) :
    advanceWhile? (fun next => next.any isMember) ⟨text, line⟩ =
      some ⟨text.dropWhile isMember, line⟩ :=
  advanceWhile?_eq_some rfl atFeed

@[simp] theorem upTo_dropWhile (isMember : Char → Bool) (last : Nat) :
    upTo ⟨text, line⟩ ⟨text.dropWhile isMember, last⟩ = text.takeWhile isMember := by
  have whole := List.takeWhile_append_dropWhile (p := isMember) (l := text)
  have lengths := congrArg List.length whole
  rw [List.length_append] at lengths
  have count : text.length - (text.dropWhile isMember).length =
      (text.takeWhile isMember).length := by omega
  rw [upTo, count]
  exact List.prefix_iff_eq_take.mp (List.takeWhile_prefix isMember) |>.symm

@[simp] theorem skip?_eq_some : skip? ⟨text, line⟩ = some ⟨skipSpacing text, line⟩ := by
  rw [skip?, advanceWhile?_any isSpacing rfl]
  change (if (text.dropWhile isSpacing).head? = some '#' then _ else _) = _
  unfold skipSpacing
  cases behind : text.dropWhile isSpacing with
  | nil => rfl
  | cons first rest =>
    by_cases comment : first = '#'
    · subst comment
      rw [List.head?_cons, if_pos rfl, advanceWhile?_eq_some rfl rfl]
      simp
    · rw [List.head?_cons, if_neg (by simp [comment])]
      simp [comment]

@[simp] theorem readSign?_eq_some (inLine : first ≠ '\n') (lexeme : Lexeme) (sign : String) :
    readSign? lexeme sign ⟨first :: rest, line⟩ =
      some ((Attempt.read lexeme sign rest).reading line) := by
  rw [readSign?, advance?_cons inLine]
  rfl

theorem readOperator?_eq_some (inLine : first ≠ '\n') (alone joined : Lexeme) (sign : String) :
    readOperator? alone joined sign ⟨first :: rest, line⟩ =
      some ((operatorBefore alone joined sign rest).reading line) := by
  rw [readOperator?, advance?_cons inLine]
  change (if rest.head? = some '=' then _ else _) = _
  cases rest with
  | nil => rfl
  | cons second rest =>
    by_cases equal : second = '='
    · subst equal
      rfl
    · rw [List.head?_cons, if_neg (by simp [equal])]
      simp [operatorBefore, equal, Attempt.reading, Attempt.read]

private theorem readUnequal?_eq_some :
    readUnequal? ⟨'!' :: rest, line⟩ = some ((tokenAt '!' rest).reading line) := by
  cases rest with
  | nil => rfl
  | cons second rest =>
    by_cases equal : second = '='
    · subst equal
      rfl
    · rw [readUnequal?, if_neg (by simp [peek, equal])]
      simp [tokenAt, equal, Attempt.reading, Attempt.fail, peek]

private theorem readString?_eq_some :
    readString? ⟨'"' :: rest, line⟩ = some ((stringAfter rest).reading line) := by
  simp only [readString?, advance?_cons (show '"' ≠ '\n' by decide), Option.bind_eq_bind,
    Option.bind_some, advanceWhile?_any isContent rfl, upTo_dropWhile, current]
  unfold stringAfter
  cases behind : rest.dropWhile isContent with
  | nil => rfl
  | cons character tail =>
    by_cases quote : character = '"'
    · subst quote
      rfl
    · simp only [List.head?_cons, if_neg quote]
      rfl

private theorem readNumber?_eq_some :
    readNumber? ⟨text, line⟩ = some ((numberAt text).reading line) := by
  simp only [readNumber?, advanceWhile?_any Number.isDigit rfl, Option.bind_eq_bind,
    Option.bind_some, upTo_dropWhile, current]
  unfold numberAt
  cases behind : text.dropWhile Number.isDigit with
  | nil => rfl
  | cons character tail =>
    by_cases point : character = '.'
    · subst point
      simp only [List.head?_cons, if_pos, advance?_cons (show '.' ≠ '\n' by decide),
        Option.bind_some, upTo_dropWhile]
      cases tail with
      | nil => rfl
      | cons second tail =>
        by_cases digit : Number.isDigit second = true
        · simp only [List.head?_cons, Option.any_some, List.takeWhile_cons_of_pos digit,
            if_pos digit]
          rfl
        · simp only [List.head?_cons, Option.any_some, List.takeWhile_cons_of_neg digit,
            if_neg digit]
          rfl
    · simp [point, Attempt.reading, Attempt.read]

private theorem readWord?_eq_some :
    readWord? ⟨text, line⟩ = some ((wordAt text).reading line) := by
  rw [readWord?, advanceWhile?_any isLetter rfl]
  change some _ = _
  rw [upTo_dropWhile]
  rfl

private theorem readAt?_eq_some (inLine : first ≠ '\n') :
    readAt? first ⟨first :: rest, line⟩ = some ((tokenAt first rest).reading line) := by
  unfold readAt?
  split
  · exact absurd rfl inLine
  · exact readSign?_eq_some inLine _ _
  · exact readSign?_eq_some inLine _ _
  · exact readSign?_eq_some inLine _ _
  · exact readSign?_eq_some inLine _ _
  · exact readOperator?_eq_some inLine _ _ _
  · exact readOperator?_eq_some inLine _ _ _
  · exact readOperator?_eq_some inLine _ _ _
  · exact readUnequal?_eq_some
  · exact readString?_eq_some
  · have other : tokenAt first rest =
        if Number.isDigit first then numberAt (first :: rest)
        else if isLetter first then wordAt (first :: rest)
        else .fail (.unknownCharacter first) (first :: rest) := by
      apply tokenAt.eq_11 <;> assumption
    rw [other]
    split
    · exact readNumber?_eq_some
    · split
      · exact readWord?_eq_some
      · rfl

private theorem next_of_skipSpacing {cursor : Cursor}
    (found : skipSpacing cursor.rest = first :: rest)
    (inLine : first ≠ '\n') : cursor.next = (tokenAt first rest).reading cursor.line := by
  simp only [next, found]
  rfl

end Readers

/-- Read one character after the other, every token is the same, and no character is taken at the
end of the text. -/
@[simp] theorem next?_eq_some (cursor : Cursor) : cursor.next? = some cursor.next := by
  obtain ⟨text, line⟩ := cursor
  rw [next?, skip?_eq_some, Option.bind_eq_bind, Option.bind_some]
  cases found : skipSpacing text with
  | nil =>
    simp only [current, next, found]
    rfl
  | cons first rest =>
    by_cases newline : first = '\n'
    · subst newline
      simp only [current, next, found]
      rfl
    · rw [next_of_skipSpacing found newline]
      exact readAt?_eq_some newline

/-- The second cursor is reached from the first by taking characters. -/
def Walks : Cursor → Cursor → Prop :=
  Relation.ReflTransGen fun cursor after => cursor.advance? = some after

section Walks

variable {test : Option Char → Bool} {cursor last : Cursor}
  {reading : Except Diagnostic Token × Cursor}

theorem Walks.step {after : Cursor} (moved : cursor.advance? = some after)
    (walks : after.Walks last) : cursor.Walks last :=
  .head moved walks

theorem walks_of_advanceWhile? (taken : cursor.advanceWhile? test = some last) :
    cursor.Walks last := by
  fun_induction advanceWhile? test cursor with
  | case1 => cases taken
  | case2 cursor passes after moved induction => exact .step moved (induction taken)
  | case3 cursor fails =>
    cases taken
    exact .refl

theorem walks_of_skip? (skipped : cursor.skip? = some last) : cursor.Walks last := by
  obtain ⟨middle, blanks, comment⟩ := Option.bind_eq_some_iff.mp skipped
  apply (walks_of_advanceWhile? blanks).trans
  split at comment
  · exact walks_of_advanceWhile? comment
  · cases comment
    exact .refl

theorem walks_of_readSign? {lexeme : Lexeme} {text : String}
    (read : cursor.readSign? lexeme text = some reading) : cursor.Walks reading.2 := by
  obtain ⟨after, moved, result⟩ := Option.bind_eq_some_iff.mp read
  cases result
  exact .single moved

theorem walks_of_readOperator? {alone joined : Lexeme} {text : String}
    (read : cursor.readOperator? alone joined text = some reading) : cursor.Walks reading.2 := by
  obtain ⟨after, moved, result⟩ := Option.bind_eq_some_iff.mp read
  apply Walks.step moved
  split at result
  · obtain ⟨last, again, result⟩ := Option.bind_eq_some_iff.mp result
    cases result
    exact .single again
  · cases result
    exact .refl

private theorem walks_of_readUnequal? (read : cursor.readUnequal? = some reading) :
    cursor.Walks reading.2 := by
  unfold readUnequal? at read
  split at read
  · obtain ⟨after, moved, result⟩ := Option.bind_eq_some_iff.mp read
    obtain ⟨last, again, result⟩ := Option.bind_eq_some_iff.mp result
    cases result
    exact .step moved (.single again)
  · cases read
    exact .refl

private theorem walks_of_readString? (read : cursor.readString? = some reading) :
    cursor.Walks reading.2 := by
  obtain ⟨opened, moved, result⟩ := Option.bind_eq_some_iff.mp read
  obtain ⟨closing, content, result⟩ := Option.bind_eq_some_iff.mp result
  apply Walks.step moved
  apply (walks_of_advanceWhile? content).trans
  dsimp only at result
  split at result
  · cases result
    exact .refl
  · split at result
    · obtain ⟨after, again, result⟩ := Option.bind_eq_some_iff.mp result
      cases result
      exact .single again
    · cases result
      exact .refl

private theorem walks_of_readNumber? (read : cursor.readNumber? = some reading) :
    cursor.Walks reading.2 := by
  obtain ⟨whole, digits, result⟩ := Option.bind_eq_some_iff.mp read
  apply (walks_of_advanceWhile? digits).trans
  dsimp only at result
  split at result
  · obtain ⟨point, moved, result⟩ := Option.bind_eq_some_iff.mp result
    apply Walks.step moved
    split at result
    · obtain ⟨last, decimals, result⟩ := Option.bind_eq_some_iff.mp result
      cases result
      exact walks_of_advanceWhile? decimals
    · cases result
      exact .refl
  · cases result
    exact .refl

private theorem walks_of_readWord? (read : cursor.readWord? = some reading) :
    cursor.Walks reading.2 := by
  obtain ⟨last, letters, result⟩ := Option.bind_eq_some_iff.mp read
  cases result
  exact walks_of_advanceWhile? letters

private theorem walks_of_readAt? {first : Char} (read : cursor.readAt? first = some reading) :
    cursor.Walks reading.2 := by
  unfold readAt? at read
  split at read
  · exact walks_of_readSign? read
  · exact walks_of_readSign? read
  · exact walks_of_readSign? read
  · exact walks_of_readSign? read
  · exact walks_of_readSign? read
  · exact walks_of_readOperator? read
  · exact walks_of_readOperator? read
  · exact walks_of_readOperator? read
  · exact walks_of_readUnequal? read
  · exact walks_of_readString? read
  · split at read
    · exact walks_of_readNumber? read
    · split at read
      · exact walks_of_readWord? read
      · cases read
        exact .refl

end Walks

/-- Where reading a token leaves the cursor is reached by taking characters, whether the token is
read or refused. -/
theorem walks_next (cursor : Cursor) : cursor.Walks cursor.next.2 := by
  have read := cursor.next?_eq_some
  generalize cursor.next = reading at read ⊢
  -- the readers are followed through their characters, so what they make of them does not matter
  obtain ⟨begin, skipped, result⟩ := Option.bind_eq_some_iff.mp read
  apply (walks_of_skip? skipped).trans
  split at result
  · cases result
    exact .refl
  · exact walks_of_readAt? result

/-- The cursor stands behind that many characters of a program, the line feed at its end included,
and its line is the one that they lead to. -/
structure StandsAt (cursor : Cursor) (source : String) (position : Nat) : Prop where
  le_length : position ≤ source.length + 1
  rest_eq : cursor.rest = (start source).rest.drop position
  line_eq : cursor.line = 1 + ((start source).rest.take position).count '\n'

section Places

variable {source : String} {position : Nat} {cursor after last : Cursor}

theorem standsAt_of_append {taken : List Char} (whole : (start source).rest = taken ++ cursor.rest)
    (line : cursor.line = 1 + taken.count '\n') : cursor.StandsAt source taken.length where
  le_length := by
    have lengths := congrArg List.length whole
    simp only [start, List.length_append, List.length_singleton, String.length_toList] at lengths
    omega
  rest_eq := by rw [whole, List.drop_left]
  line_eq := by rw [whole, List.take_left, line]

theorem StandsAt.append_eq (stands : cursor.StandsAt source position) :
    (start source).rest = (start source).rest.take position ++ cursor.rest := by
  rw [stands.rest_eq, List.take_append_drop]

theorem standsAt_start (source : String) : (start source).StandsAt source 0 :=
  standsAt_of_append (List.nil_append _).symm rfl

/-- Taking a character leads to the next place. -/
theorem StandsAt.advance (stands : cursor.StandsAt source position)
    (moved : cursor.advance? = some after) : after.StandsAt source (position + 1) := by
  obtain ⟨text, line⟩ := cursor
  cases text with
  | nil => cases moved
  | cons character rest =>
    have whole : (start source).rest =
        ((start source).rest.take position ++ [character]) ++ rest := by
      rw [List.append_assoc]
      exact stands.append_eq
    have behind : ((start source).rest.take position ++ [character]).length = position + 1 := by
      have bound : position ≤ (start source).rest.length := by
        simpa [start, String.length_toList] using stands.le_length
      rw [List.length_append, List.length_take_of_le bound, List.length_singleton]
    have line_eq : line = 1 + ((start source).rest.take position).count '\n' := stands.line_eq
    rw [← behind]
    cases moved
    apply standsAt_of_append whole
    rw [List.count_append, List.count_singleton]
    by_cases newline : character = '\n'
    · simp [newline, line_eq, Nat.add_assoc]
    · simp [newline, line_eq]

theorem StandsAt.walks (stands : cursor.StandsAt source position) (walks : cursor.Walks last) :
    ∃ further, position ≤ further ∧ last.StandsAt source further := by
  induction walks with
  | refl => exact ⟨position, Nat.le_refl position, stands⟩
  | tail _ moved induction =>
    obtain ⟨further, later, stands⟩ := induction
    exact ⟨further + 1, Nat.le_succ_of_le later, stands.advance moved⟩

/-- What is left of a program is empty or ends with its last line feed. -/
theorem StandsAt.endsLine (stands : cursor.StandsAt source position) : EndsLine cursor.rest := by
  apply (endsLine_append_newline source.toList).suffix
  exact ⟨_, stands.append_eq.symm⟩

end Places

end Cursor

section Faults

variable {text rest : List Char} {first : Char} {fault : LexicalFault}

theorem outcome_operatorBefore_ne_error (alone joined : Lexeme) (sign : String) (rest : List Char) :
    (operatorBefore alone joined sign rest).outcome ≠ .error fault := by
  intro refused
  rcases Lexical.operatorBefore_cases alone joined sign rest with ⟨_, _, read⟩ | ⟨_, read⟩
  · rw [read] at refused
    cases refused
  · rw [read] at refused
    cases refused

/-- In front of a line feed, what ends the content of a string is a character. -/
theorem fault_of_stringAfter (feed : '\n' ∈ text)
    (refused : (stringAfter text).outcome = .error fault) :
    ∃ character, fault = .illegalInString character := by
  have behind : '\n' ∈ text.dropWhile isContent := mem_dropWhile_of_mem feed rfl
  unfold stringAfter at refused
  cases found : text.dropWhile isContent with
  | nil =>
    rw [found] at behind
    cases behind
  | cons character tail =>
    rw [found] at refused
    dsimp only at refused
    split at refused
    · cases refused
    · cases refused
      exact ⟨character, rfl⟩

private theorem fault_of_numberAt (refused : (numberAt text).outcome = .error fault) :
    fault = .illegalInNumber := by
  unfold numberAt at refused
  dsimp only at refused
  split at refused
  · split at refused
    · cases refused
      rfl
    · cases refused
  · cases refused

/-- No token that begins in front of a line feed is refused for the end of the text. -/
theorem fault_of_tokenAt (feed : '\n' ∈ rest)
    (refused : (tokenAt first rest).outcome = .error fault) :
    fault ≠ .unterminatedString ∧ fault ≠ .loneExclamation none := by
  unfold tokenAt at refused
  split at refused
  · cases refused
  · cases refused
  · cases refused
  · cases refused
  · exact absurd refused (outcome_operatorBefore_ne_error _ _ _ rest)
  · exact absurd refused (outcome_operatorBefore_ne_error _ _ _ rest)
  · exact absurd refused (outcome_operatorBefore_ne_error _ _ _ rest)
  · cases rest with
    | nil => cases feed
    | cons second tail =>
      split at refused
      · cases refused
      · cases refused
        simp
  · obtain ⟨character, rfl⟩ := fault_of_stringAfter feed refused
    simp
  · split at refused
    · rw [fault_of_numberAt refused]
      simp
    · split at refused
      · cases refused
      · cases refused
        simp

end Faults

/-- The cursor meets a fault: behind a gap there begins a token that cannot be read, and the fault
is reported on the line of the place where it begins. -/
def Cursor.Meets (cursor : Cursor) (source : String) (diagnostic : Diagnostic) : Prop :=
  ∃ (gap : List Char) (begin : Cursor) (position : Nat) (first : Char) (rest : List Char)
      (fault : LexicalFault),
    cursor.rest = gap ++ begin.rest ∧ Lexical.Gap gap begin.rest ∧
    begin.StandsAt source position ∧ begin.rest = first :: rest ∧ first ≠ '\n' ∧
    (tokenAt first rest).outcome = .error fault ∧
    diagnostic = ⟨begin.line, .lexical fault⟩

private theorem exists_of_next_error {cursor after : Cursor} {diagnostic : Diagnostic}
    (refused : cursor.next = (.error diagnostic, after)) :
    ∃ first rest fault, skipSpacing cursor.rest = first :: rest ∧ first ≠ '\n' ∧
      (tokenAt first rest).outcome = .error fault ∧
      diagnostic = ⟨cursor.line, .lexical fault⟩ := by
  unfold Cursor.next at refused
  split at refused
  · cases refused
  · cases refused
  · next first rest inLine found =>
    dsimp only at refused
    split at refused
    · cases refused
    · next fault outcome =>
      cases refused
      refine ⟨first, rest, fault, found, ?_, outcome, rfl⟩
      rintro rfl
      exact inLine rfl

section Meets

variable {source : String} {position : Nat} {cursor after : Cursor} {diagnostic : Diagnostic}

theorem Cursor.StandsAt.meets (stands : cursor.StandsAt source position)
    (refused : cursor.next = (.error diagnostic, after)) : cursor.Meets source diagnostic := by
  obtain ⟨first, rest, fault, found, inLine, outcome, rfl⟩ := exists_of_next_error refused
  obtain ⟨gap, whole, between⟩ := Lexical.exists_gap_skipSpacing cursor.rest
  have skipped : cursor.skip? = some ⟨skipSpacing cursor.rest, cursor.line⟩ := Cursor.skip?_eq_some
  obtain ⟨further, -, begins⟩ := stands.walks (Cursor.walks_of_skip? skipped)
  exact ⟨gap, ⟨skipSpacing cursor.rest, cursor.line⟩, further, first, rest, fault, whole, between,
    begins, found, inLine, outcome, rfl⟩

/-- Nothing is refused for the end of the text: a line feed follows wherever a token begins. -/
theorem Cursor.Meets.fault_ne (meets : cursor.Meets source diagnostic) :
    diagnostic.fault ≠ .lexical .unterminatedString ∧
      diagnostic.fault ≠ .lexical (.loneExclamation none) := by
  obtain ⟨gap, begin, position, first, rest, fault, -, -, stands, found, inLine, outcome, rfl⟩ :=
    meets
  -- the token does not begin with the last line feed, so that is still ahead behind its beginning
  have member : '\n' ∈ first :: rest := by
    rw [← found]
    apply stands.endsLine.mem
    simp [found]
  have feed : '\n' ∈ rest := List.mem_of_ne_of_mem (Ne.symm inLine) member
  obtain ⟨terminated, followed⟩ := fault_of_tokenAt feed outcome
  constructor
  · intro same
    exact terminated (Fault.lexical.inj same)
  · intro same
    exact followed (Fault.lexical.inj same)

end Meets

theorem Draws.walks {cursor last : Cursor} {tokens : List Token}
    (draws : Draws cursor tokens last) : cursor.Walks last := by
  induction draws with
  | none => exact .refl
  | @more cursor token after tokens last read _ induction =>
    have first : cursor.Walks after := by
      have walks := cursor.walks_next
      rwa [read] at walks
    exact first.trans induction

theorem Serves.walks {request : Request} {cursor : Cursor}
    {portion : Except Diagnostic (List Token) × Cursor} (serves : Serves request cursor portion) :
    cursor.Walks portion.2 := by
  cases serves with
  | drawn draws _ => exact draws.walks
  | lost loses _ =>
    obtain ⟨middle, draws, refused⟩ := loses
    have walks := middle.walks_next
    rw [refused] at walks
    exact draws.walks.trans walks

namespace Session

variable {source : String}

theorem standsAt_origin {session : Session} (same : session.source = source)
    (stands : ∃ position, session.cursor.StandsAt source position) (request : Request) :
    ∃ position, (session.origin request).StandsAt source position := by
  cases request with
  | restart =>
    rw [origin, same]
    exact ⟨0, Cursor.standsAt_start source⟩
  | _ => exact stands

/-- Answering a request leaves the cursor at a place of the text. -/
theorem standsAt_answer {session : Session} (same : session.source = source)
    (stands : ∃ position, session.cursor.StandsAt source position) (request : Request) :
    ∃ position, (session.answer request).2.cursor.StandsAt source position := by
  obtain ⟨position, begins⟩ := standsAt_origin same stands request
  obtain ⟨further, -, stops⟩ := begins.walks (serves_draw (session.origin request) request).walks
  exact ⟨further, stops⟩

private theorem standsAt_after (source : String) (requests : List Request) :
    ∃ position, ((start source).after requests).cursor.StandsAt source position := by
  suffices kept : ∀ session : Session, session.source = source →
      (∃ position, session.cursor.StandsAt source position) →
      ∃ position, (session.after requests).cursor.StandsAt source position from
    kept (start source) rfl ⟨0, Cursor.standsAt_start source⟩
  induction requests with
  | nil => exact fun _ _ stands => stands
  | cons request requests induction =>
    intro session same stands
    exact induction (session.answer request).2 same (standsAt_answer same stands request)

/-- A session after any requests, answered or refused, and one more request.  The cursor stands at a
place of the text, and so it does at every token that is read for the request; read there one
character after the other, with none taken at the end of the text, the token is the same.  If the
request is refused, then for a token that begins at a place of the text, on the line of that place,
and never because the text ends. -/
theorem standsAt_of_requests (source : String) (requests : List Request) (request : Request) :
    (∃ position, ((start source).after requests).cursor.StandsAt source position) ∧
    (∀ tokens cursor, Draws (((start source).after requests).origin request) tokens cursor →
      (∃ position, cursor.StandsAt source position) ∧ cursor.next? = some cursor.next) ∧
    ∀ diagnostic, (((start source).after requests).answer request).1 = .error diagnostic →
      diagnostic.fault ≠ .lexical .unterminatedString ∧
      diagnostic.fault ≠ .lexical (.loneExclamation none) ∧
      ∃ tokens cursor,
        Draws (((start source).after requests).origin request) tokens cursor ∧
        cursor.Meets source diagnostic := by
  have stands := standsAt_after source requests
  obtain ⟨position, begins⟩ := standsAt_origin source_after stands request
  refine ⟨stands, ?_, ?_⟩
  · intro tokens cursor draws
    obtain ⟨further, -, reached⟩ := begins.walks draws.walks
    exact ⟨⟨further, reached⟩, cursor.next?_eq_some⟩
  · intro diagnostic refused
    have serves := serves_draw (((start source).after requests).origin request) request
    generalize portion : draw (((start source).after requests).origin request) request = drawn
      at serves
    rw [answer, portion] at refused
    cases serves with
    | drawn draws => cases refused
    | @lost tokens other last loses =>
      cases refused
      obtain ⟨middle, draws, fails⟩ := loses
      obtain ⟨further, -, reached⟩ := begins.walks draws.walks
      have meets := reached.meets fails
      obtain ⟨terminated, followed⟩ := meets.fault_ne
      exact ⟨terminated, followed, tokens, middle, draws, meets⟩

/-- A session that goes on inside a string: the character that was refused there is refused again,
as the beginning of a token of the second line. -/
theorem standsAt_of_requests_inside :
    (((start "\n\"%").after [.next]).answer .next).1 =
        .error ⟨2, .lexical (.illegalInString '%')⟩ ∧
      (((start "\n\"%").after [.next, .next]).answer .next).1 =
        .error ⟨2, .lexical (.unknownCharacter '%')⟩ ∧
      ∃ tokens cursor,
        Draws (((start "\n\"%").after [.next, .next]).origin .next) tokens cursor ∧
        cursor.Meets "\n\"%" ⟨2, .lexical (.unknownCharacter '%')⟩ := by
  have first : (((start "\n\"%").after [.next]).answer .next).1 =
      .error ⟨2, .lexical (.illegalInString '%')⟩ := rfl
  have second : (((start "\n\"%").after [.next, .next]).answer .next).1 =
      .error ⟨2, .lexical (.unknownCharacter '%')⟩ := rfl
  obtain ⟨-, -, refused⟩ := standsAt_of_requests "\n\"%" [.next, .next] .next
  obtain ⟨-, -, meets⟩ := refused _ second
  exact ⟨first, second, meets⟩

end Session

end Lexer

end TeenyBasic
