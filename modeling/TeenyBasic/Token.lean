/-!
# Tokens

A program is a sequence of tokens, each with the text it was written as and the line it stands
on.  What a token *is* — its lexeme — carries the decoded value; its `Kind` forgets that value
and is what the grammar and its messages speak about.
-/

namespace TeenyBasic

inductive Keyword
  | labelWord
  | gotoWord
  | printWord
  | inputWord
  | letWord
  | ifWord
  | thenWord
  | endifWord
  | whileWord
  | repeatWord
  | endwhileWord
  deriving DecidableEq, Repr

inductive Arithmetic
  | plus
  | minus
  | times
  | divide
  deriving DecidableEq, Repr

inductive Relation
  | equal
  | unequal
  | less
  | lessEqual
  | greater
  | greaterEqual
  deriving DecidableEq, Repr

inductive Kind
  | eof
  | newline
  | number
  | string
  | identifier
  | keyword (word : Keyword)
  | assign
  | arithmetic (operator : Arithmetic)
  | relation (operator : Relation)
  deriving DecidableEq, Repr

/-- What a token is, with the value of a literal or the name of an identifier. -/
inductive Lexeme
  | eof
  | newline
  | number (value : Float)
  | string (content : String)
  | identifier (name : String)
  | keyword (word : Keyword)
  | assign
  | arithmetic (operator : Arithmetic)
  | relation (operator : Relation)

/-- A lexeme as it was written, with its line. -/
structure Token where
  lexeme : Lexeme
  text : String
  line : Int

namespace Keyword

def all : List Keyword :=
  [labelWord, gotoWord, printWord, inputWord, letWord, ifWord, thenWord, endifWord, whileWord,
    repeatWord, endwhileWord]

def text : Keyword → String
  | labelWord => "LABEL"
  | gotoWord => "GOTO"
  | printWord => "PRINT"
  | inputWord => "INPUT"
  | letWord => "LET"
  | ifWord => "IF"
  | thenWord => "THEN"
  | endifWord => "ENDIF"
  | whileWord => "WHILE"
  | repeatWord => "REPEAT"
  | endwhileWord => "ENDWHILE"

/-- The reserved word written as the given text. -/
def ofText? (written : String) : Option Keyword :=
  all.find? fun word => word.text = written

@[simp] theorem ofText?_text (word : Keyword) : ofText? word.text = some word := by
  cases word <;> decide

theorem text_of_ofText? {written : String} {word : Keyword}
    (found : ofText? written = some word) : word.text = written := by
  simpa using List.find?_some found

end Keyword

/-- How an operator of arithmetic is written. -/
def Arithmetic.text : Arithmetic → String
  | plus => "+"
  | minus => "-"
  | times => "*"
  | divide => "/"

/-- How an operator of comparison is written. -/
def Relation.text : Relation → String
  | equal => "=="
  | unequal => "!="
  | less => "<"
  | lessEqual => "<="
  | greater => ">"
  | greaterEqual => ">="

def Kind.name : Kind → String
  | eof => "EOF"
  | newline => "NEWLINE"
  | number => "NUMBER"
  | string => "STRING"
  | identifier => "IDENTIFIER"
  | keyword word => word.text
  | assign => "EQ"
  | arithmetic .plus => "PLUS"
  | arithmetic .minus => "MINUS"
  | arithmetic .times => "ASTERISK"
  | arithmetic .divide => "SLASH"
  | relation .equal => "EQEQ"
  | relation .unequal => "NOTEQ"
  | relation .less => "LT"
  | relation .lessEqual => "LTEQ"
  | relation .greater => "GT"
  | relation .greaterEqual => "GTEQ"

def Lexeme.kind : Lexeme → Kind
  | eof => .eof
  | newline => .newline
  | number _ => .number
  | string _ => .string
  | identifier _ => .identifier
  | keyword word => .keyword word
  | assign => .assign
  | arithmetic operator => .arithmetic operator
  | relation operator => .relation operator

namespace Token

def kind (token : Token) : Kind :=
  token.lexeme.kind

def isNewline (token : Token) : Bool :=
  token.kind = .newline

/-- The token at the end of a text, on its last line. -/
def eofAt (line : Int) : Token :=
  ⟨.eof, "", line⟩

end Token

end TeenyBasic
