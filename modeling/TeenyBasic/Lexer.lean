import TeenyBasic.Ending
import TeenyBasic.Number.Entered

/-!
# From characters to tokens

A `Cursor` stands before the unread characters of a program and knows their line.
`Cursor.next` reads one token and says where it stops, also when it reads none: then the cursor
stands at the character that made reading impossible.  `scan` reads all tokens up to the end of
the text or the first fault, whichever comes first.

Every text is read as if one more line feed followed it, so that the last line is ended too.
-/

namespace TeenyBasic

namespace Lexer

/-- Unread characters and the line on which they begin. -/
structure Cursor where
  rest : List Char
  line : Nat
  deriving DecidableEq, Repr

/-- The cursor at the beginning of a program. -/
def Cursor.start (source : String) : Cursor :=
  ⟨source.toList ++ ['\n'], 1⟩

/-- Blanks between tokens. -/
def isSpacing (character : Char) : Bool :=
  character = ' ' || character = '\t' || character = '\r'

def isLetter (character : Char) : Bool :=
  ('a' ≤ character && character ≤ 'z') || ('A' ≤ character && character ≤ 'Z')

/-- Characters that may not stand in a string. -/
def isForbidden (character : Char) : Bool :=
  character = '\r' || character = '\n' || character = '\t' || character = '%' || character = '\\'

def isContent (character : Char) : Bool :=
  character ≠ '"' && !isForbidden character

/-- What remains after a run of blanks and a comment, which ends before the next line feed. -/
def skipSpacing (text : List Char) : List Char :=
  match text.dropWhile isSpacing with
  | '#' :: rest => rest.dropWhile (· ≠ '\n')
  | rest => rest

/-- One attempt to read a token: the lexeme and its text, or what is wrong, and in both cases the
characters that remain. -/
structure Attempt where
  outcome : Except LexicalFault (Lexeme × String)
  rest : List Char

def Attempt.read (lexeme : Lexeme) (text : String) (rest : List Char) : Attempt :=
  ⟨.ok (lexeme, text), rest⟩

def Attempt.fail (fault : LexicalFault) (rest : List Char) : Attempt :=
  ⟨.error fault, rest⟩

/-- Reads an operator that means something else when `=` follows. -/
def operatorBefore (alone joined : Lexeme) (text : String) : List Char → Attempt
  | '=' :: rest => .read joined (text ++ "=") rest
  | rest => .read alone text rest

/-- Reads the rest of a string, after its opening quote. -/
def stringAfter (text : List Char) : Attempt :=
  let content := String.ofList (text.takeWhile isContent)
  match text.dropWhile isContent with
  | [] => .fail .unterminatedString []
  | character :: rest =>
      if character = '"' then .read (.string content) content rest
      else .fail (.illegalInString character) (character :: rest)

/-- The value of digits with a fraction behind them. -/
def numberValue (wholePart fraction : List Char) : Float :=
  Number.Decimal.toFloat ⟨Number.digitsValue (wholePart ++ fraction), -fraction.length⟩ false

/-- Reads a number: digits, and digits behind a point. -/
def numberAt (text : List Char) : Attempt :=
  let wholePart := text.takeWhile Number.isDigit
  match text.dropWhile Number.isDigit with
  | '.' :: rest =>
      let fraction := rest.takeWhile Number.isDigit
      if fraction.isEmpty then .fail .illegalInNumber rest
      else
        .read (.number (numberValue wholePart fraction))
          (String.ofList (wholePart ++ '.' :: fraction)) (rest.dropWhile Number.isDigit)
  | rest => .read (.number (numberValue wholePart [])) (String.ofList wholePart) rest

/-- The lexeme of a word: reserved, or a name. -/
def wordLexeme (word : String) : Lexeme :=
  match Keyword.ofText? word with
  | some keyword => .keyword keyword
  | none => .identifier word

/-- Reads a word: the longest run of letters. -/
def wordAt (text : List Char) : Attempt :=
  let word := String.ofList (text.takeWhile isLetter)
  .read (wordLexeme word) word (text.dropWhile isLetter)

/-- Reads the token that begins with a given character other than a line feed. -/
def tokenAt (first : Char) (rest : List Char) : Attempt :=
  match first with
  | '+' => .read (.arithmetic .plus) "+" rest
  | '-' => .read (.arithmetic .minus) "-" rest
  | '*' => .read (.arithmetic .times) "*" rest
  | '/' => .read (.arithmetic .divide) "/" rest
  | '=' => operatorBefore .assign (.relation .equal) "=" rest
  | '<' => operatorBefore (.relation .less) (.relation .lessEqual) "<" rest
  | '>' => operatorBefore (.relation .greater) (.relation .greaterEqual) ">" rest
  | '!' =>
      match rest with
      | '=' :: rest => .read (.relation .unequal) "!=" rest
      | rest => .fail (.loneExclamation rest.head?) (first :: rest)
  | '"' => stringAfter rest
  | _ =>
      if Number.isDigit first then numberAt (first :: rest)
      else if isLetter first then wordAt (first :: rest)
      else .fail (.unknownCharacter first) (first :: rest)

/-- Reads the next token.  At the end of the text this is the end token, again and again. -/
def Cursor.next (cursor : Cursor) : Except Diagnostic Token × Cursor :=
  match skipSpacing cursor.rest with
  | [] => (.ok (Token.eofAt cursor.line), ⟨[], cursor.line⟩)
  | '\n' :: rest => (.ok ⟨.newline, "\n", cursor.line⟩, ⟨rest, cursor.line + 1⟩)
  | first :: rest =>
      let attempt := tokenAt first rest
      let after : Cursor := ⟨attempt.rest, cursor.line⟩
      match attempt.outcome with
      | .ok (lexeme, text) => (.ok ⟨lexeme, text, cursor.line⟩, after)
      | .error fault => (.error ⟨cursor.line, .lexical fault⟩, after)

theorem length_dropWhile_le {α : Type} (keep : α → Bool) (list : List α) :
    (list.dropWhile keep).length ≤ list.length :=
  (List.dropWhile_suffix keep).length_le

theorem length_skipSpacing_le (text : List Char) :
    (skipSpacing text).length ≤ text.length := by
  have outer := length_dropWhile_le isSpacing text
  unfold skipSpacing
  split
  · next rest comment =>
    have inner := length_dropWhile_le (fun character => decide (character ≠ '\n')) rest
    rw [comment, List.length_cons] at outer
    omega
  · exact outer

theorem length_dropWhile_cons_lt {keep : Char → Bool} {first : Char} (kept : keep first = true)
    (rest : List Char) :
    ((first :: rest).dropWhile keep).length < (first :: rest).length := by
  rw [List.dropWhile_cons_of_pos kept, List.length_cons]
  have bound := length_dropWhile_le keep rest
  omega

theorem length_operatorBefore_le (alone joined : Lexeme) (text : String) (rest : List Char) :
    (operatorBefore alone joined text rest).rest.length ≤ rest.length := by
  unfold operatorBefore
  split <;> simp [Attempt.read]

theorem length_stringAfter_le (text : List Char) :
    (stringAfter text).rest.length ≤ text.length := by
  have bound := length_dropWhile_le isContent text
  unfold stringAfter
  simp only
  split
  · simp [Attempt.fail]
  · next character rest found =>
    rw [found, List.length_cons] at bound
    split <;> simp only [Attempt.read, Attempt.fail, List.length_cons] <;> omega

theorem length_numberAt_lt {first : Char} (digit : Number.isDigit first = true)
    (rest : List Char) :
    (numberAt (first :: rest)).rest.length < (first :: rest).length := by
  have bound := length_dropWhile_cons_lt digit rest
  unfold numberAt
  simp only
  split
  · next tail found =>
    rw [found, List.length_cons] at bound
    have inner := length_dropWhile_le Number.isDigit tail
    split <;> simp only [Attempt.read, Attempt.fail] <;> omega
  · exact bound

/-- Reading a token other than the end leaves fewer characters. -/
theorem length_rest_tokenAt_lt {first : Char} {rest : List Char} {found : Lexeme × String}
    (read : (tokenAt first rest).outcome = .ok found) :
    (tokenAt first rest).rest.length < (first :: rest).length := by
  have suffix := length_stringAfter_le rest
  revert read
  unfold tokenAt
  split
  all_goals try simp only [Attempt.read, List.length_cons]; omega
  · intro _
    exact Nat.lt_succ_of_le (length_operatorBefore_le _ _ _ rest)
  · intro _
    exact Nat.lt_succ_of_le (length_operatorBefore_le _ _ _ rest)
  · intro _
    exact Nat.lt_succ_of_le (length_operatorBefore_le _ _ _ rest)
  · split
    · simp only [Attempt.read, List.length_cons]; omega
    · simp [Attempt.fail]
  · split
    · next digit => exact fun _ => length_numberAt_lt digit rest
    · split
      · next letter => exact fun _ => length_dropWhile_cons_lt letter rest
      · simp [Attempt.fail]

/-- Reading any token but the end token moves the cursor forward. -/
theorem length_rest_next_lt {cursor after : Cursor} {token : Token}
    (read : cursor.next = (.ok token, after)) (inside : token.kind ≠ .eof) :
    after.rest.length < cursor.rest.length := by
  have spacing := length_skipSpacing_le cursor.rest
  unfold Cursor.next at read
  split at read
  · simp only [Prod.mk.injEq, Except.ok.injEq] at read
    exact absurd (by rw [← read.1]; rfl) inside
  · next rest found =>
    simp only [Prod.mk.injEq] at read
    rw [← read.2]
    rw [found, List.length_cons] at spacing
    exact spacing
  · next first rest _ found =>
    simp only at read
    rw [found] at spacing
    split at read
    · next lexeme text outcome =>
      simp only [Prod.mk.injEq] at read
      rw [← read.2]
      exact Nat.lt_of_lt_of_le (length_rest_tokenAt_lt outcome) spacing
    · simp at read

/-- All tokens before the ending, the ending, and where the cursor stops. -/
structure Scan where
  tokens : List Token
  ending : Ending
  cursor : Cursor

/-- Reads tokens up to the end of the text or the first fault. -/
def scan (cursor : Cursor) : Scan :=
  match _read : cursor.next with
  | (.error diagnostic, after) => ⟨[], .fault diagnostic, after⟩
  | (.ok token, after) =>
      if _inside : token.kind = .eof then ⟨[], .eof token.line, after⟩
      else
        let following := scan after
        { following with tokens := token :: following.tokens }
termination_by cursor.rest.length
decreasing_by exact length_rest_next_lt _read _inside

/-- The tokens of a scan including the end token, unless it ended with a fault. -/
def Scan.complete (found : Scan) : Except Diagnostic (List Token) :=
  match found.ending with
  | .eof line => .ok (found.tokens ++ [Token.eofAt line])
  | .fault diagnostic => .error diagnostic

theorem Scan.exists_eof_of_complete {found : Scan} {tokens : List Token}
    (complete : found.complete = .ok tokens) :
    ∃ line, found.ending = .eof line ∧ tokens = found.tokens ++ [Token.eofAt line] := by
  unfold Scan.complete at complete
  split at complete
  · next line ending =>
    cases complete
    exact ⟨line, ending, rfl⟩
  · cases complete

/-- Reads at most `count` tokens, and none after the end token. -/
def Cursor.take : Nat → Cursor → Except Diagnostic (List Token) × Cursor
  | 0, cursor => (.ok [], cursor)
  | count + 1, cursor =>
      match cursor.next with
      | (.error diagnostic, after) => (.error diagnostic, after)
      | (.ok token, after) =>
          if token.kind = .eof then (.ok [token], after)
          else
            match after.take count with
            | (.ok tokens, last) => (.ok (token :: tokens), last)
            | (.error diagnostic, last) => (.error diagnostic, last)

/-- All tokens of a program, the end token included. -/
def tokens (source : String) : Except Diagnostic (List Token) :=
  (scan (Cursor.start source)).complete

end Lexer

end TeenyBasic
