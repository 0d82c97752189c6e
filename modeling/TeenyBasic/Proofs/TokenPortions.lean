import Mathlib.Data.List.Forall2
import TeenyBasic.Session
import TeenyBasic.Proofs.LineByLine

/-!
# Portions of a token stream

A session may be asked for tokens in any portions, one after the other and with restarts between
them, and its cursor moves with every request.  What it hands out is nevertheless one stream: the
tokens that reading the whole text at once finds, then its end token again and again, or its fault.
The invariant is `Ahead`: what was handed out, together with what reading on from the cursor would
find, is what reading the whole text finds.  One token keeps it (`Ahead.next`), hence every request
does, and `Session.answers_of_segment` says what the requests between two restarts are answered.
How much of the stream a request takes is said by `Request.Fills`: as many tokens as it asks for,
unless the end token comes first.
-/

namespace TeenyBasic

namespace Lexer

/-- Tokens are read one after the other, without a fault. -/
inductive Draws : Cursor → List Token → Cursor → Prop
  | none {cursor} : Draws cursor [] cursor
  | more {cursor token after tokens last} :
      cursor.next = (.ok token, after) →
      Draws after tokens last →
      Draws cursor (token :: tokens) last

/-- Tokens are read one after the other, up to a fault. -/
def Loses (cursor : Cursor) (lost : List Token) (diagnostic : Diagnostic) (last : Cursor) : Prop :=
  ∃ middle, Draws cursor lost middle ∧ middle.next = (.error diagnostic, last)

theorem Loses.more {cursor after last : Cursor} {token : Token} {lost : List Token}
    {diagnostic : Diagnostic} (read : cursor.next = (.ok token, after))
    (loses : Loses after lost diagnostic last) : Loses cursor (token :: lost) diagnostic last := by
  obtain ⟨middle, draws, refused⟩ := loses
  exact ⟨middle, .more read draws, refused⟩

namespace Request

/-- The number of tokens that are asked for, where it is not all of them. -/
def size : Request → Option Nat
  | .next => some 1
  | .take count => some count
  | .rest | .restart => none

/-- The request goes on after the given tokens. -/
structure Wants (request : Request) (tokens : List Token) : Prop where
  short : ∀ count ∈ request.size, tokens.length < count
  unended : ∀ token ∈ tokens, token.kind ≠ .eof

/-- The request is answered by the given tokens: by as many as it asks for, or by all up to the end
token if that comes first. -/
inductive Fills (request : Request) : List Token → Prop
  | full {tokens} :
      request.size = some tokens.length →
      (∀ token ∈ tokens, token.kind ≠ .eof) →
      Fills request tokens
  | ended {tokens last} : request.Wants tokens → last.kind = .eof → Fills request (tokens ++ [last])

section Steps

variable {request request' : Request} {token : Token} {tokens : List Token}

/-- A token in front is one of those that are asked for, where their number is known. -/
theorem Wants.cons (larger : ∀ count ∈ request'.size, ∃ less ∈ request.size, count = less + 1)
    (inside : token.kind ≠ .eof) (wants : request.Wants tokens) :
    request'.Wants (token :: tokens) where
  short count asked := by
    obtain ⟨less, asked', rfl⟩ := larger count asked
    exact Nat.succ_lt_succ (wants.short less asked')
  unended := List.forall_mem_cons.mpr ⟨inside, wants.unended⟩

theorem Wants.nil (asks : ∀ count ∈ request.size, 0 < count) : request.Wants [] where
  short := asks
  unended _ member := absurd member List.not_mem_nil

theorem Fills.of_eof (asks : ∀ count ∈ request.size, 0 < count) (ended : token.kind = .eof) :
    request.Fills [token] :=
  .ended (.nil asks) ended

private theorem Fills.take_cons {count : Nat} (inside : token.kind ≠ .eof)
    (fills : (take count).Fills tokens) : (take (count + 1)).Fills (token :: tokens) := by
  cases fills with
  | full size_eq unended =>
    cases size_eq
    exact .full rfl (List.forall_mem_cons.mpr ⟨inside, unended⟩)
  | @ended front last wants eof =>
    refine @Fills.ended _ (token :: front) _ (wants.cons ?_ inside) eof
    rintro _ ⟨⟩
    exact ⟨count, rfl, rfl⟩

private theorem Fills.rest_cons (inside : token.kind ≠ .eof) (fills : rest.Fills tokens) :
    rest.Fills (token :: tokens) := by
  cases fills with
  | full size_eq _ => cases size_eq
  | @ended front last wants eof =>
    exact @Fills.ended _ (token :: front) _ (wants.cons (by simp [Request.size]) inside) eof

end Steps

end Request

/-- A request is answered with the tokens that are read for it and fill it, or refused for a fault
that is met while it goes on. -/
inductive Serves (request : Request) (cursor : Cursor) :
    Except Diagnostic (List Token) × Cursor → Prop
  | drawn {tokens last} :
      Draws cursor tokens last → request.Fills tokens → Serves request cursor (.ok tokens, last)
  | lost {tokens diagnostic last} :
      Loses cursor tokens diagnostic last →
      request.Wants tokens →
      Serves request cursor (.error diagnostic, last)

private theorem serves_next (cursor : Cursor) :
    Serves .next cursor (Session.draw cursor .next) := by
  have asks : ∀ count ∈ Request.next.size, 0 < count := by
    rintro _ ⟨⟩
    exact Nat.one_pos
  unfold Session.draw
  rcases read : cursor.next with ⟨diagnostic | token, after⟩
  · exact .lost ⟨cursor, .none, read⟩ (.nil asks)
  · refine .drawn (.more read .none) ?_
    by_cases ended : token.kind = .eof
    · exact .of_eof asks ended
    · exact .full rfl (List.forall_mem_singleton.mpr ended)

private theorem serves_take (count : Nat) (cursor : Cursor) :
    Serves (.take count) cursor (cursor.take count) := by
  induction count generalizing cursor with
  | zero => exact .drawn .none (.full rfl fun _ member => absurd member List.not_mem_nil)
  | succ count induction =>
    have asks : ∀ number ∈ (Request.take (count + 1)).size, 0 < number := by
      rintro _ ⟨⟩
      exact Nat.succ_pos count
    rw [Cursor.take]
    rcases read : cursor.next with ⟨diagnostic | token, after⟩
    · exact .lost ⟨cursor, .none, read⟩ (.nil asks)
    · by_cases ended : token.kind = .eof
      · simp only [ended, if_true]
        exact .drawn (.more read .none) (.of_eof asks ended)
      · simp only [ended, if_false]
        have further := induction after
        generalize after.take count = portion at further
        cases further with
        | drawn draws fills => exact .drawn (.more read draws) (fills.take_cons ended)
        | lost loses wants =>
          refine .lost (loses.more read) (wants.cons ?_ ended)
          rintro _ ⟨⟩
          exact ⟨count, rfl, rfl⟩

theorem serves_scan (cursor : Cursor) :
    Serves .rest cursor ((scan cursor).complete, (scan cursor).cursor) := by
  fun_induction scan cursor with
  | case1 cursor diagnostic after refused =>
    exact .lost ⟨cursor, .none, refused⟩ (.nil (by simp [Request.size]))
  | case2 cursor token after read ended =>
    rcases Lexical.next_cases read with ⟨rfl, -⟩ | ⟨gap, raw, -, -, spelled, -⟩
    · exact .drawn (.more read .none) (.of_eof (by simp [Request.size]) ended)
    · exact absurd ended spelled.kind_ne_eof
  | case3 cursor token after read inside following induction =>
    change Serves .rest after ((scan after).complete, (scan after).cursor) at induction
    change Serves .rest cursor
      (Scan.complete { scan after with tokens := token :: (scan after).tokens },
        (scan after).cursor)
    generalize scan after = found at induction ⊢
    obtain ⟨tokens, ending, last⟩ := found
    cases ending with
    | eof line =>
      cases induction with
      | drawn draws fills => exact .drawn (.more read draws) (fills.rest_cons inside)
    | fault diagnostic =>
      cases induction with
      | lost loses wants =>
        exact .lost (loses.more read) (wants.cons (by simp [Request.size]) inside)

/-- To start again is to ask for all tokens from another place. -/
theorem Serves.restart {cursor : Cursor} {answer : Except Diagnostic (List Token) × Cursor}
    (serves : Serves .rest cursor answer) : Serves .restart cursor answer := by
  cases serves with
  | drawn draws fills =>
    refine .drawn draws ?_
    cases fills with
    | full size_eq _ => cases size_eq
    | ended wants eof => exact .ended ⟨wants.short, wants.unended⟩ eof
  | lost loses wants => exact .lost loses ⟨wants.short, wants.unended⟩

/-- Every request is served with tokens that are read one after the other. -/
theorem Session.serves_draw (cursor : Cursor) (request : Request) :
    Serves request cursor (draw cursor request) := by
  cases request with
  | next => exact serves_next cursor
  | take count => exact serves_take count cursor
  | rest => exact serves_scan cursor
  | restart => exact (serves_scan cursor).restart

/-- The tokens of a text and, if it has no fault, that many copies of its end token. -/
def Scan.stream (found : Scan) (count : Nat) : List Token :=
  match found.ending with
  | .eof line => found.tokens ++ List.replicate count (Token.eofAt line)
  | .fault _ => found.tokens

/-- Reading on from the cursor finds the rest of the stream of which the given tokens were handed
out.  Where an end token was among them, nothing but end tokens is left. -/
structure Ahead (found : Scan) (handed : List Token) (cursor : Cursor) : Prop where
  ending : (scan cursor).ending = found.ending
  stream : ∃ count, handed ++ (scan cursor).tokens = found.stream count ∧
    (0 < count → (scan cursor).tokens = [])

namespace Ahead

variable {found : Scan} {handed : List Token} {cursor after : Cursor}

theorem start (cursor : Cursor) : Ahead (scan cursor) [] cursor where
  ending := rfl
  stream := by
    refine ⟨0, ?_, fun positive => absurd positive (Nat.lt_irrefl 0)⟩
    unfold Scan.stream
    split <;> simp

/-- The stream goes on with the token that is read next. -/
theorem next (ahead : Ahead found handed cursor) {token : Token}
    (read : cursor.next = (.ok token, after)) : Ahead found (handed ++ [token]) after := by
  obtain ⟨ending, count, whole, finished⟩ := ahead
  by_cases ended : token.kind = .eof
  · -- the end token is read again and again, from a cursor that stays
    have here := scan_of_next_eof read ended
    rw [here] at ending whole
    obtain ⟨rfl, rfl⟩ : token = Token.eofAt cursor.line ∧ after = ⟨[], cursor.line⟩ := by
      rcases Lexical.next_cases read with ⟨rfl, gap⟩ | ⟨gap, raw, -, -, spelled, -⟩
      · cases read.symm.trans (Lexical.next_gap cursor.line gap)
        exact ⟨rfl, rfl⟩
      · exact absurd ended spelled.kind_ne_eof
    have stays :
        Cursor.next ⟨[], cursor.line⟩ = (.ok (Token.eofAt cursor.line), ⟨[], cursor.line⟩) :=
      next_of_rest_eq_nil rfl
    have again := scan_of_next_eof stays rfl
    refine ⟨?_, count + 1, ?_, ?_⟩
    · rw [again]
      exact ending
    · rw [again, List.append_nil]
      rw [List.append_nil] at whole
      simp only [Scan.stream, ← ending] at whole ⊢
      rw [whole, List.replicate_succ', ← List.append_assoc]
      rfl
    · intro _
      rw [again]
  · have here := scan_of_next read ended
    rw [here] at ending whole finished
    refine ⟨ending, count, ?_, ?_⟩
    · rw [List.append_assoc]
      exact whole
    · intro positive
      cases finished positive

theorem draws (ahead : Ahead found handed cursor) {tokens : List Token}
    (draws : Draws cursor tokens after) : Ahead found (handed ++ tokens) after := by
  induction draws generalizing handed with
  | none =>
    rw [List.append_nil]
    exact ahead
  | more read _ induction =>
    have further := induction (ahead.next read)
    rwa [List.append_assoc] at further

/-- A fault is met where the text has it: everything in front of it was handed out. -/
theorem loses (ahead : Ahead found handed cursor) {lost : List Token} {diagnostic : Diagnostic}
    (loses : Loses cursor lost diagnostic after) :
    found.ending = .fault diagnostic ∧ handed ++ lost = found.tokens := by
  obtain ⟨middle, draws, refused⟩ := loses
  obtain ⟨ending, count, whole, -⟩ := ahead.draws draws
  rw [scan_of_next_error refused] at ending whole
  have same : found.ending = .fault diagnostic := ending.symm
  simp only [Scan.stream, same, List.append_nil] at whole
  exact ⟨same, whole⟩

/-- Without a fault, what remains is the rest of the text and the end token. -/
theorem remaining (ahead : Ahead found handed cursor) {line : Int}
    (ending : found.ending = .eof line) :
    ∃ remaining count, (scan cursor).complete = .ok remaining ∧
      handed ++ remaining = found.tokens ++ List.replicate (count + 1) (Token.eofAt line) := by
  obtain ⟨same, count, whole, -⟩ := ahead
  simp only [Scan.stream, ending] at whole
  refine ⟨(scan cursor).tokens ++ [Token.eofAt line], count, ?_, ?_⟩
  · simp only [Scan.complete, same, ending]
  · rw [← List.append_assoc, whole, List.append_assoc, List.replicate_succ']

/-- With a fault, what remains is the rest of the tokens in front of it, and then the fault. -/
theorem exists_loses (ahead : Ahead found handed cursor) {diagnostic : Diagnostic}
    (ending : found.ending = .fault diagnostic) :
    ∃ remaining last, Loses cursor remaining diagnostic last ∧
      handed ++ remaining = found.tokens := by
  have serves := serves_scan cursor
  have refused : (scan cursor).complete = .error diagnostic := by
    simp only [Scan.complete, ahead.ending, ending]
  rw [refused] at serves
  cases serves with
  | lost loses _ => exact ⟨_, _, loses, (ahead.loses loses).2⟩

end Ahead

/-- The end token stands behind the tokens of a text without a fault. -/
theorem Scan.ending_of_complete_eq_ok {found : Scan} {body : List Token} {last : Token}
    (complete : found.complete = .ok (body ++ [last])) :
    ∃ line, found.ending = .eof line ∧ found.tokens = body ∧ last = Token.eofAt line := by
  obtain ⟨line, ending, whole⟩ := Scan.exists_eof_of_complete complete
  obtain ⟨rfl, same⟩ := List.append_inj' whole rfl
  exact ⟨line, ending, rfl, List.head_eq_of_cons_eq same⟩

theorem Scan.ending_of_complete_eq_error {found : Scan} {diagnostic : Diagnostic}
    (complete : found.complete = .error diagnostic) : found.ending = .fault diagnostic := by
  unfold Scan.complete at complete
  split at complete
  · cases complete
  · next ending =>
    cases complete
    exact ending

namespace Session

variable {source : String} {session : Session} {found : Scan} {handed : List Token}

private theorem origin_of_ne_restart {request : Request} (inside : request ≠ .restart) :
    session.origin request = session.cursor := by
  cases request with
  | restart => exact absurd rfl inside
  | _ => rfl

/-- Requests are answered with the next tokens of a stream, of which some tokens were handed out
before: all requests, or those before one that is refused for the fault that ends the stream. -/
inductive Follows (found : Scan) (handed : List Token) (session : Session)
    (requests : List Request) : Prop
  | through {portions : List (List Token)} :
      session.answers requests = portions.map .ok →
      List.Forall₂ Request.Fills requests portions →
      Ahead found (handed ++ portions.flatten) (session.after requests).cursor →
      Follows found handed session requests
  | refused {firsts request lasts lost diagnostic last} {portions : List (List Token)} :
      requests = firsts ++ request :: lasts →
      session.answers firsts = portions.map .ok →
      List.Forall₂ Request.Fills firsts portions →
      ((session.after firsts).answer request).1 = .error diagnostic →
      Loses ((session.after firsts).origin request) lost diagnostic last →
      request.Wants lost →
      found.ending = .fault diagnostic →
      handed ++ portions.flatten ++ lost = found.tokens →
      Follows found handed session requests

theorem Follows.cons {request : Request} {requests : List Request} {tokens : List Token}
    (answered : (session.answer request).1 = .ok tokens) (fills : request.Fills tokens)
    (follows : Follows found (handed ++ tokens) (session.answer request).2 requests) :
    Follows found handed session (request :: requests) := by
  cases follows with
  | @through portions others filled reached =>
    refine @through _ _ _ _ (tokens :: portions) ?_ (.cons fills filled) ?_
    · rw [answers, answered, others]
      rfl
    · rw [List.flatten_cons, ← List.append_assoc]
      exact reached
  | @refused firsts request' lasts lost diagnostic last portions split others filled fails loses
      wants ending whole =>
    refine @refused _ _ _ _ (request :: firsts) request' lasts lost diagnostic last
      (tokens :: portions) ?_ ?_ (.cons fills filled) fails loses wants ending ?_
    · rw [split, List.cons_append]
    · rw [answers, answered, others]
      rfl
    · rw [List.flatten_cons, ← List.append_assoc]
      exact whole

/-- One request is answered with the next tokens, after which the others follow, or it is refused
for the fault. -/
theorem follows_cons {request : Request} {requests : List Request}
    (ahead : Ahead found handed (session.origin request))
    (further : ∀ tokens, Ahead found (handed ++ tokens) (session.answer request).2.cursor →
      Follows found (handed ++ tokens) (session.answer request).2 requests) :
    Follows found handed session (request :: requests) := by
  have serves := serves_draw (session.origin request) request
  generalize portion : draw (session.origin request) request = drawn at serves
  cases serves with
  | @drawn tokens last draws fills =>
    have answered : session.answer request = (.ok tokens, ⟨session.source, last⟩) := by
      rw [answer, portion]
    rw [answered] at further
    refine Follows.cons (congrArg Prod.fst answered) fills ?_
    rw [answered]
    exact further tokens (ahead.draws draws)
  | @lost lost diagnostic last loses wants =>
    obtain ⟨ending, whole⟩ := ahead.loses loses
    have fails : (session.answer request).1 = .error diagnostic := by
      rw [answer, portion]
    refine @Follows.refused _ _ _ _ [] request requests lost diagnostic last [] rfl rfl .nil fails
      loses wants ending ?_
    rw [List.flatten_nil, List.append_nil]
    exact whole

theorem follows_of_not_mem (ahead : Ahead found handed session.cursor) {requests : List Request}
    (inside : .restart ∉ requests) : Follows found handed session requests := by
  induction requests generalizing session handed with
  | nil =>
    refine @Follows.through _ _ _ _ [] rfl .nil ?_
    rw [List.flatten_nil, List.append_nil]
    exact ahead
  | cons request requests induction =>
    have here : request ≠ .restart := fun same => inside (same ▸ List.mem_cons_self)
    have later : .restart ∉ requests := fun member => inside (List.mem_cons_of_mem _ member)
    refine follows_cons ?_ fun tokens reached => induction reached later
    rw [origin_of_ne_restart here]
    exact ahead

@[simp] theorem source_after {requests : List Request} :
    (session.after requests).source = session.source := by
  induction requests generalizing session with
  | nil => rfl
  | cons request requests induction => exact induction

/-- The requests between two restarts: those of a new session, or those from a restart on, whatever
was asked for before. -/
inductive Segment (source : String) : Session → List Request → Prop
  | opening {requests} : .restart ∉ requests → Segment source (start source) requests
  | restarted {before requests} :
      .restart ∉ requests →
      Segment source ((start source).after before) (.restart :: requests)

/-- Between two restarts the session hands out the stream of its text from the beginning. -/
theorem Segment.follows {requests : List Request} (segment : Segment source session requests) :
    Follows (scan (Cursor.start source)) [] session requests := by
  cases segment with
  | opening inside => exact follows_of_not_mem (Ahead.start (Cursor.start source)) inside
  | @restarted before requests inside =>
    refine follows_cons ?_ fun tokens reached => follows_of_not_mem reached inside
    have origin : ((start source).after before).origin .restart = Cursor.start source :=
      congrArg Cursor.start source_after
    rw [origin]
    exact Ahead.start _

/-- The requests between two restarts.  If the text has no fault, each of them is answered with
tokens that fill it, and what they are answered, followed by what the session would still hand out,
is the text and then its end token a number of times.  If it has one, they are answered with the
tokens in front of the fault until a request meets it while it still wants tokens; that request is
refused for it, and just the tokens in front of the fault were handed out or lost with the request.
A restart is answered, in every state that requests lead to, as if the session were new. -/
theorem answers_of_segment {requests : List Request} (segment : Segment source session requests) :
    (∀ body last, tokens source = .ok (body ++ [last]) →
      ∃ (portions : List (List Token)) (remaining : List Token) (count : Nat),
        session.answers requests = portions.map .ok ∧
        List.Forall₂ Request.Fills requests portions ∧
        ((session.after requests).answer .rest).1 = .ok remaining ∧
        portions.flatten ++ remaining = body ++ List.replicate (count + 1) last) ∧
    (∀ diagnostic, tokens source = .error diagnostic →
      (∃ (portions : List (List Token)) (remaining : List Token) (last : Cursor),
        session.answers requests = portions.map .ok ∧
        List.Forall₂ Request.Fills requests portions ∧
        Loses (session.after requests).cursor remaining diagnostic last ∧
        portions.flatten ++ remaining = (scan (Cursor.start source)).tokens) ∨
      ∃ firsts request lasts, ∃ portions : List (List Token), ∃ lost last,
        requests = firsts ++ request :: lasts ∧
        session.answers firsts = portions.map .ok ∧
        List.Forall₂ Request.Fills firsts portions ∧
        ((session.after firsts).answer request).1 = .error diagnostic ∧
        Loses ((session.after firsts).origin request) lost diagnostic last ∧
        request.Wants lost ∧
        portions.flatten ++ lost = (scan (Cursor.start source)).tokens) ∧
    ∀ before, ((start source).after before).answer .restart = (start source).answer .restart ∧
      ((start source).answer .restart).1 = tokens source := by
  have follows := segment.follows
  refine ⟨?_, ?_, ?_⟩
  · intro body last tokenized
    obtain ⟨line, ending, rfl, rfl⟩ := Scan.ending_of_complete_eq_ok tokenized
    cases follows with
    | @through portions answered filled reached =>
      obtain ⟨remaining, count, complete, whole⟩ := reached.remaining ending
      exact ⟨portions, remaining, count, answered, filled, complete, whole⟩
    | refused _ _ _ _ _ _ fault _ => cases ending.symm.trans fault
  · intro diagnostic refused
    have ending := Scan.ending_of_complete_eq_error refused
    cases follows with
    | @through portions answered filled reached =>
      obtain ⟨remaining, last, loses, whole⟩ := reached.exists_loses ending
      exact .inl ⟨portions, remaining, last, answered, filled, loses, whole⟩
    | @refused firsts request lasts lost diagnostic' last portions split answered filled fails loses
        wants fault whole =>
      cases ending.symm.trans fault
      exact .inr ⟨firsts, request, lasts, portions, lost, last, split, answered, filled, fails,
        loses, wants, whole⟩
  · intro before
    refine ⟨?_, rfl⟩
    simp only [answer, origin, source_after]

/-- A text with a fault on its second line, asked for as a whole, then for its next token, and then
from the beginning again. -/
theorem answers_of_segment_restarted :
    tokens "a\n$" = .error ⟨2, .lexical (.unknownCharacter '$')⟩ ∧
      (((start "a\n$").after [.rest, .next]).answer .restart).1 =
        .error ⟨2, .lexical (.unknownCharacter '$')⟩ := by
  have refused : tokens "a\n$" = .error ⟨2, .lexical (.unknownCharacter '$')⟩ := by
    cbv
  have segment : Segment "a\n$" ((start "a\n$").after [.rest, .next]) [.restart] :=
    .restarted List.not_mem_nil
  have restarts := (answers_of_segment segment).2.2 [.rest, .next]
  refine ⟨refused, ?_⟩
  rw [restarts.1, restarts.2, refused]

end Session

end Lexer

end TeenyBasic
