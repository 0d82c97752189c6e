import TeenyBasic.Diagnostic

/-!
# Taking tokens one after another

Tokens are taken from the front of a list.  What stands behind the list is its `Ending`: the end
of the program, or a fault that is reported as soon as anyone looks there.  The end is never
taken, so every reader that reaches it refuses it, and `Ending.refuse` says how.
-/

namespace TeenyBasic

/-- How the tokens of a text end: with the end token on some line, or with a fault. -/
inductive Ending
  | eof (line : Int)
  | fault (diagnostic : Diagnostic)
  deriving DecidableEq, Repr

namespace Ending

/-- The diagnostic of a reader that needs one more token and complains about the end token. -/
def refuse (ending : Ending) (complaint : Token → Diagnostic) : Diagnostic :=
  match ending with
  | eof line => complaint (Token.eofAt line)
  | fault diagnostic => diagnostic

/-- Fails if nothing but a fault stands behind the tokens already taken. -/
def reachable (ending : Ending) (rest : List Token) : Except Diagnostic Unit :=
  match ending, rest with
  | fault diagnostic, [] => .error diagnostic
  | _, _ => .ok ()

/-- The diagnostic of a reader that complains about the token in front. -/
def refuseFront (ending : Ending) (complaint : Token → Diagnostic) : List Token → Diagnostic
  | [] => ending.refuse complaint
  | token :: _ => complaint token

def expect (ending : Ending) (kind : Kind) : List Token → Except Diagnostic (List Token)
  | [] => .error (ending.refuse (.expected kind))
  | token :: rest => if token.kind = kind then .ok rest else .error (.expected kind token)

/-- Takes an identifier, giving its name and line. -/
def expectName (ending : Ending) :
    List Token → Except Diagnostic (String × Int × List Token)
  | [] => .error (ending.refuse (.expected .identifier))
  | token :: rest =>
      match token.lexeme with
      | .identifier name => .ok (name, token.line, rest)
      | _ => .error (.expected .identifier token)

/-- Takes the end of a line and all empty lines behind it. -/
def expectLineEnd (ending : Ending) (tokens : List Token) : Except Diagnostic (List Token) :=
  match ending.expect .newline tokens with
  | .ok rest => .ok (rest.dropWhile Token.isNewline)
  | .error diagnostic => .error diagnostic

theorem length_expect_lt {ending : Ending} {kind : Kind} {tokens rest : List Token}
    (taken : ending.expect kind tokens = .ok rest) : rest.length < tokens.length := by
  unfold expect at taken
  split at taken
  · simp at taken
  · split at taken
    · simp only [Except.ok.injEq] at taken
      subst taken
      simp
    · simp at taken

theorem length_expectName_lt {ending : Ending} {tokens rest : List Token} {name : String}
    {line : Int} (taken : ending.expectName tokens = .ok (name, line, rest)) :
    rest.length < tokens.length := by
  unfold expectName at taken
  split at taken
  · simp at taken
  · split at taken
    · simp only [Except.ok.injEq, Prod.mk.injEq] at taken
      rw [← taken.2.2]
      simp
    · simp at taken

theorem length_expectLineEnd_lt {ending : Ending} {tokens rest : List Token}
    (taken : ending.expectLineEnd tokens = .ok rest) : rest.length < tokens.length := by
  unfold expectLineEnd at taken
  split at taken
  · next after found =>
    simp only [Except.ok.injEq] at taken
    subst taken
    exact Nat.lt_of_le_of_lt (List.dropWhile_suffix Token.isNewline).length_le
      (length_expect_lt found)
  · simp at taken

end Ending

end TeenyBasic
