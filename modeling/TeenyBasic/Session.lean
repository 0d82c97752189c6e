import TeenyBasic.Lexer

/-!
# Reading a program in portions

A session reads one program for somebody who asks for its tokens in portions: the next token, a
number of tokens, all that remain, or all tokens from the beginning.  The end token can be asked
for again and again.  A portion that meets a fault is refused, the tokens before the fault are
lost with it, and the session goes on wherever the fault has left its cursor.
-/

namespace TeenyBasic

namespace Lexer

inductive Request
  | next
  | take (count : Nat)
  | rest
  | restart
  deriving DecidableEq, Repr

/-- A program being read. -/
structure Session where
  source : String
  cursor : Cursor
  deriving DecidableEq, Repr

namespace Session

/-- A session before its first request. -/
def start (source : String) : Session :=
  ⟨source, Cursor.start source⟩

/-- Where the tokens for a request are drawn from. -/
def origin (session : Session) : Request → Cursor
  | .restart => Cursor.start session.source
  | _ => session.cursor

/-- The tokens drawn for a request, or the fault that was met, and where the cursor stops. -/
def draw (cursor : Cursor) : Request → Except Diagnostic (List Token) × Cursor
  | .next => (cursor.next.1.map fun token => [token], cursor.next.2)
  | .take count => cursor.take count
  | .rest | .restart => ((scan cursor).complete, (scan cursor).cursor)

def answer (session : Session) (request : Request) :
    Except Diagnostic (List Token) × Session :=
  let (drawn, cursor) := draw (session.origin request) request
  (drawn, { session with cursor := cursor })

def after (session : Session) : List Request → Session
  | [] => session
  | request :: requests => (session.answer request).2.after requests

/-- The answers to requests, one after the other. -/
def answers (session : Session) : List Request → List (Except Diagnostic (List Token))
  | [] => []
  | request :: requests =>
      (session.answer request).1 :: (session.answer request).2.answers requests

end Session

end Lexer

end TeenyBasic
