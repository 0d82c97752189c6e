import TeenyBasic.Text.Quoted
import TeenyBasic.Token

/-!
# Diagnostics

Everything that can be wrong with a program, with the line on which it was noticed.  A fault is
lexical (characters that form no token), grammatical (a token that does not fit where it stands)
or a matter of naming (variables and labels).  The wording of all of them is in this module.
-/

namespace TeenyBasic

/-- Characters that form no token. -/
inductive LexicalFault
  | unknownCharacter (character : Char)
  | loneExclamation (following : Option Char)
  | unterminatedString
  | illegalInString (character : Char)
  | illegalInNumber
  deriving DecidableEq, Repr

/-- A token that does not fit where it stands. -/
inductive GrammarFault
  | expected (wanted found : Kind)
  | invalidStatement (found : Kind) (text : String)
  | missingRelation (found : Kind) (text : String)
  | unexpectedOperand (found : Kind) (text : String)
  deriving DecidableEq, Repr

/-- A misuse of a variable or a label. -/
inductive NamingFault
  | unassignedVariable (name : String)
  | repeatedLabel (name : String)
  | undeclaredLabel (name : String)
  deriving DecidableEq, Repr

inductive Fault
  | lexical (fault : LexicalFault)
  | grammar (fault : GrammarFault)
  | naming (fault : NamingFault)
  deriving DecidableEq, Repr

structure Diagnostic where
  line : Int
  fault : Fault
  deriving DecidableEq, Repr

def LexicalFault.text : LexicalFault → String
  | unknownCharacter character => "Unknown token " ++ Text.quoted character.toString
  | loneExclamation following =>
      "Illegal character: expected '!=', got '!' followed by " ++
        match following with
        | some character => Text.quoted character.toString
        | none => "end of input"
  | unterminatedString => "Unterminated string literal"
  | illegalInString character =>
      "Illegal character in string: " ++ Text.quoted character.toString
  | illegalInNumber => "Illegal character in number"

/-- How a token is described: line ends by their name, other tokens by text and name. -/
def describeToken (kind : Kind) (text : String) : String :=
  match kind with
  | .eof => kind.name
  | .newline => kind.name
  | _ => Text.quoted text ++ " (" ++ kind.name ++ ")"

def GrammarFault.text : GrammarFault → String
  | expected wanted found => "Expected " ++ wanted.name ++ ", got " ++ found.name
  | invalidStatement found text => "Invalid statement at " ++ describeToken found text
  | missingRelation found text => "Expected comparison operator at " ++ describeToken found text
  | unexpectedOperand found text => "Unexpected token at " ++ describeToken found text

def NamingFault.text : NamingFault → String
  | unassignedVariable name => "Referencing variable before assignment: \"" ++ name ++ "\""
  | repeatedLabel name => "Label \"" ++ name ++ "\" already exists"
  | undeclaredLabel name => "Attempting to GOTO to undeclared label \"" ++ name ++ "\""

def Fault.text : Fault → String
  | lexical fault => fault.text
  | grammar fault => fault.text
  | naming fault => fault.text

namespace Diagnostic

/-- The whole message, with the line in front. -/
def message (diagnostic : Diagnostic) : String :=
  "Line " ++ toString diagnostic.line ++ ": " ++ diagnostic.fault.text

/-- A token stands where another kind is needed. -/
def expected (wanted : Kind) (token : Token) : Diagnostic :=
  ⟨token.line, .grammar (.expected wanted token.kind)⟩

def invalidStatement (token : Token) : Diagnostic :=
  ⟨token.line, .grammar (.invalidStatement token.kind token.text)⟩

/-- A condition lacks its comparison. -/
def missingRelation (token : Token) : Diagnostic :=
  ⟨token.line, .grammar (.missingRelation token.kind token.text)⟩

/-- A token stands where a number or a variable is needed. -/
def unexpectedOperand (token : Token) : Diagnostic :=
  ⟨token.line, .grammar (.unexpectedOperand token.kind token.text)⟩

/-- A variable is read before anything was assigned to it. -/
def unassignedVariable (name : String) (line : Int) : Diagnostic :=
  ⟨line, .naming (.unassignedVariable name)⟩

/-- A label is declared a second time. -/
def repeatedLabel (name : String) (line : Int) : Diagnostic :=
  ⟨line, .naming (.repeatedLabel name)⟩

/-- A jump names a label that is declared nowhere. -/
def undeclaredLabel (name : String) (line : Int) : Diagnostic :=
  ⟨line, .naming (.undeclaredLabel name)⟩

end Diagnostic

end TeenyBasic
