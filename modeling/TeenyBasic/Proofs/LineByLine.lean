import TeenyBasic.Proofs.LexicalGrammar

/-!
# Texts are read line by line

Nothing that the lexer reads, skips or refuses goes on behind a line feed: no class of characters
holds it, and where one character decides about the next, a line feed decides as any other end
does.  So the tokens of two texts with a line feed between them are those of the first text and,
further down, those of the second one, and a fault is the first fault of the two
(`Lexer.tokens_append_newline`).
-/

namespace TeenyBasic

def Token.down (lines : Nat) (token : Token) : Token :=
  { token with line := token.line + lines }

def Diagnostic.down (lines : Nat) (diagnostic : Diagnostic) : Diagnostic :=
  { diagnostic with line := diagnostic.line + lines }

def Ending.down (lines : Nat) : Ending → Ending
  | eof line => .eof (line + lines)
  | fault diagnostic => .fault (diagnostic.down lines)

namespace Lexer

section Runs

variable {isMember : Char → Bool} {text : List Char} {mark : Char}

theorem mem_dropWhile_of_mem (member : mark ∈ text) (outside : isMember mark = false) :
    mark ∈ text.dropWhile isMember := by
  rw [← List.takeWhile_append_dropWhile (p := isMember) (l := text)] at member
  rcases List.mem_append.mp member with run | behind
  · have inside := Lexical.of_mem_takeWhile run
    rw [outside] at inside
    cases inside
  · exact behind

theorem dropWhile_append_of_mem (member : mark ∈ text) (outside : isMember mark = false)
    (more : List Char) :
    (text ++ more).dropWhile isMember = text.dropWhile isMember ++ more := by
  have behind := mem_dropWhile_of_mem member outside
  rw [List.dropWhile_append, if_neg]
  intro empty
  rw [List.isEmpty_iff.mp empty] at behind
  cases behind

theorem takeWhile_append_of_mem (member : mark ∈ text) (outside : isMember mark = false)
    (more : List Char) :
    (text ++ more).takeWhile isMember = text.takeWhile isMember := by
  have whole := List.takeWhile_append_dropWhile (p := isMember) (l := text)
  have behind := mem_dropWhile_of_mem member outside
  have ends := Lexical.ends_dropWhile isMember text
  conv => lhs; rw [← whole, List.append_assoc]
  refine Lexical.takeWhile_append_of_ends (fun _ => Lexical.of_mem_takeWhile) ?_
  cases rest : text.dropWhile isMember with
  | nil =>
    rw [rest] at behind
    cases behind
  | cons first rest' =>
    rw [rest] at ends
    exact Lexical.ends_cons.mpr (Lexical.ends_cons.mp ends)

end Runs

/-- The attempt with more text behind what remains. -/
def Attempt.followedBy (attempt : Attempt) (more : List Char) : Attempt :=
  { attempt with rest := attempt.rest ++ more }

/-- The cursor with more text behind its own. -/
def Cursor.followedBy (cursor : Cursor) (more : List Char) : Cursor :=
  { cursor with rest := cursor.rest ++ more }

section Feeds

variable {text : List Char} (feed : '\n' ∈ text) (more : List Char)

include feed

theorem skipSpacing_append : skipSpacing (text ++ more) = skipSpacing text ++ more := by
  have behind : '\n' ∈ text.dropWhile isSpacing := mem_dropWhile_of_mem feed rfl
  unfold skipSpacing
  rw [dropWhile_append_of_mem feed rfl]
  cases rest : text.dropWhile isSpacing with
  | nil =>
    rw [rest] at behind
    cases behind
  | cons first tail =>
    rw [rest] at behind
    by_cases comment : first = '#'
    · subst comment
      have inside : '\n' ∈ tail := List.mem_of_ne_of_mem (by decide) behind
      exact dropWhile_append_of_mem inside rfl more
    · simp [comment]

private theorem mem_skipSpacing : '\n' ∈ skipSpacing text := by
  have behind : '\n' ∈ text.dropWhile isSpacing := mem_dropWhile_of_mem feed rfl
  unfold skipSpacing
  split
  · next rest comment =>
    rw [comment] at behind
    exact mem_dropWhile_of_mem (List.mem_of_ne_of_mem (by decide) behind) rfl
  · exact behind

theorem operatorBefore_append (alone joined : Lexeme) (sign : String) :
    operatorBefore alone joined sign (text ++ more) =
      (operatorBefore alone joined sign text).followedBy more := by
  cases text with
  | nil => cases feed
  | cons first rest =>
    by_cases equal : first = '='
    · subst equal
      rfl
    · simp [operatorBefore, equal, Attempt.followedBy, Attempt.read]

theorem stringAfter_append : stringAfter (text ++ more) = (stringAfter text).followedBy more := by
  have behind : '\n' ∈ text.dropWhile isContent := mem_dropWhile_of_mem feed rfl
  unfold stringAfter
  rw [dropWhile_append_of_mem feed rfl, takeWhile_append_of_mem feed rfl]
  cases rest : text.dropWhile isContent with
  | nil =>
    rw [rest] at behind
    cases behind
  | cons first tail =>
    simp only [List.cons_append]
    split <;> rfl

private theorem numberAt_append : numberAt (text ++ more) = (numberAt text).followedBy more := by
  have behind : '\n' ∈ text.dropWhile Number.isDigit := mem_dropWhile_of_mem feed rfl
  unfold numberAt
  rw [dropWhile_append_of_mem feed rfl, takeWhile_append_of_mem feed rfl]
  cases rest : text.dropWhile Number.isDigit with
  | nil =>
    rw [rest] at behind
    cases behind
  | cons first tail =>
    rw [rest] at behind
    by_cases point : first = '.'
    · subst point
      have inside : '\n' ∈ tail := List.mem_of_ne_of_mem (by decide) behind
      have digits : (tail ++ more).takeWhile Number.isDigit = tail.takeWhile Number.isDigit :=
        takeWhile_append_of_mem inside rfl more
      have last : (tail ++ more).dropWhile Number.isDigit =
          tail.dropWhile Number.isDigit ++ more := dropWhile_append_of_mem inside rfl more
      simp only [List.cons_append, digits, last]
      split <;> rfl
    · simp [point, Attempt.followedBy, Attempt.read]

theorem wordAt_append : wordAt (text ++ more) = (wordAt text).followedBy more := by
  unfold wordAt
  rw [dropWhile_append_of_mem feed rfl, takeWhile_append_of_mem feed rfl]
  rfl

/-- A token that begins before a line feed is read or refused whatever stands behind it. -/
theorem tokenAt_append (first : Char) :
    tokenAt first (text ++ more) = (tokenAt first text).followedBy more := by
  unfold tokenAt
  split
  · rfl
  · rfl
  · rfl
  · rfl
  · exact operatorBefore_append feed more _ _ _
  · exact operatorBefore_append feed more _ _ _
  · exact operatorBefore_append feed more _ _ _
  · cases text with
    | nil => cases feed
    | cons second rest =>
      by_cases equal : second = '='
      · subst equal
        rfl
      · simp [equal, Attempt.followedBy, Attempt.fail]
  · exact stringAfter_append feed more
  · have inside : '\n' ∈ first :: text := List.mem_cons_of_mem first feed
    split
    · exact numberAt_append inside more
    · split
      · exact wordAt_append inside more
      · rfl

/-- The next token of a text that has a line feed is read or refused whatever stands behind the
text. -/
theorem next_followedBy (line : Nat) :
    (Cursor.followedBy ⟨text, line⟩ more).next =
      ((Cursor.next ⟨text, line⟩).1, (Cursor.next ⟨text, line⟩).2.followedBy more) := by
  have behind := mem_skipSpacing feed
  simp only [Cursor.next, Cursor.followedBy, skipSpacing_append feed more]
  cases rest : skipSpacing text with
  | nil =>
    rw [rest] at behind
    cases behind
  | cons first tail =>
    rw [rest] at behind
    by_cases newline : first = '\n'
    · subst newline
      rfl
    · have inside : '\n' ∈ tail := List.mem_of_ne_of_mem (Ne.symm newline) behind
      simp only [List.cons_append, tokenAt_append inside more, Attempt.followedBy]
      cases (tokenAt first tail).outcome <;> rfl

end Feeds

def EndsLine (text : List Char) : Prop :=
  ∀ character, text.getLast? = some character → character = '\n'

theorem endsLine_append_newline (text : List Char) : EndsLine (text ++ ['\n']) := by
  intro character last
  rw [List.getLast?_append] at last
  exact (Option.some.inj last).symm

theorem EndsLine.suffix {text rest : List Char} (ends : EndsLine text) (suffix : rest <:+ text) :
    EndsLine rest := by
  intro character last
  apply ends
  obtain ⟨taken, rfl⟩ := suffix
  rw [List.getLast?_append, last]
  rfl

theorem EndsLine.mem {text : List Char} (ends : EndsLine text) (nonempty : text ≠ []) :
    '\n' ∈ text := by
  have last := ends _ (List.getLast?_eq_some_getLast nonempty)
  rw [← last]
  exact List.getLast_mem nonempty

/-- In complete lines the end is read where nothing remains. -/
theorem EndsLine.eq_nil {cursor after : Cursor} {token : Token} (ends : EndsLine cursor.rest)
    (read : cursor.next = (.ok token, after)) (ended : token.kind = .eof) : cursor.rest = [] := by
  rcases Lexical.next_cases read with ⟨-, gap⟩ | ⟨gap, raw, -, -, spelled, -⟩
  · by_cases empty : cursor.rest = []
    · exact empty
    · exact absurd (ends.mem empty) gap.not_newline
  · exact absurd ended spelled.kind_ne_eof

theorem next_of_rest_eq_nil {cursor : Cursor} (empty : cursor.rest = []) :
    cursor.next = (.ok (Token.eofAt cursor.line), ⟨[], cursor.line⟩) := by
  obtain ⟨rest, line⟩ := cursor
  subst empty
  exact Lexical.next_gap line (.blanks nofun)

theorem rest_ne_nil_of_next {cursor after : Cursor} {token : Token}
    (read : cursor.next = (.ok token, after)) (inside : token.kind ≠ .eof) : cursor.rest ≠ [] := by
  intro empty
  cases read.symm.trans (next_of_rest_eq_nil empty)
  exact inside rfl

theorem rest_suffix_of_next {cursor after : Cursor} {token : Token}
    (read : cursor.next = (.ok token, after)) (inside : token.kind ≠ .eof) :
    after.rest <:+ cursor.rest := by
  rcases Lexical.next_cases read with ⟨rfl, -⟩ | ⟨gap, raw, whole, -⟩
  · exact absurd rfl inside
  · rw [whole, ← List.append_assoc]
    exact List.suffix_append _ _

theorem next_followedBy_of_endsLine {cursor : Cursor} (ends : EndsLine cursor.rest)
    (nonempty : cursor.rest ≠ []) (more : List Char) :
    (cursor.followedBy more).next = (cursor.next.1, cursor.next.2.followedBy more) :=
  next_followedBy (ends.mem nonempty) more cursor.line

/-- A text whose first lines are faulty is refused for the first fault in them. -/
theorem scan_followedBy_of_fault {cursor : Cursor} (ends : EndsLine cursor.rest)
    (more : List Char) {diagnostic : Diagnostic}
    (fails : (scan cursor).ending = .fault diagnostic) :
    (scan (cursor.followedBy more)).ending = .fault diagnostic := by
  fun_induction scan cursor with
  | case1 cursor fault after refused =>
    cases fails
    have nonempty : cursor.rest ≠ [] := fun empty => by
      cases refused.symm.trans (next_of_rest_eq_nil empty)
    have extended := next_followedBy_of_endsLine ends nonempty more
    rw [refused] at extended
    rw [scan_of_next_error extended]
  | case2 => cases fails
  | case3 cursor token after read inside following induction =>
    have extended := next_followedBy_of_endsLine ends (rest_ne_nil_of_next read inside) more
    rw [read] at extended
    rw [scan_of_next extended inside]
    exact induction (ends.suffix (rest_suffix_of_next read inside)) fails

/-- Lines without a fault are read, and then what stands behind them from the line that they end
on. -/
theorem scan_followedBy_of_eof {cursor : Cursor} (ends : EndsLine cursor.rest)
    (more : List Char) {bottom : Nat} (finishes : (scan cursor).ending = .eof bottom) :
    (scan (cursor.followedBy more)).tokens =
        (scan cursor).tokens ++ (scan ⟨more, bottom⟩).tokens ∧
      (scan (cursor.followedBy more)).ending = (scan ⟨more, bottom⟩).ending := by
  fun_induction scan cursor with
  | case1 => cases finishes
  | case2 cursor token after read ended =>
    have empty := ends.eq_nil read ended
    cases read.symm.trans (next_of_rest_eq_nil empty)
    have same : cursor.line = bottom := Int.ofNat.inj (Ending.eof.inj finishes)
    have begins : cursor.followedBy more = ⟨more, bottom⟩ := by
      rw [Cursor.followedBy, empty, same, List.nil_append]
    rw [begins]
    exact ⟨rfl, rfl⟩
  | case3 cursor token after read inside following induction =>
    have extended := next_followedBy_of_endsLine ends (rest_ne_nil_of_next read inside) more
    rw [read] at extended
    rw [scan_of_next extended inside]
    obtain ⟨tokens, ending⟩ :=
      induction (ends.suffix (rest_suffix_of_next read inside)) finishes
    exact ⟨congrArg (token :: ·) tokens, ending⟩

theorem next_down (text : List Char) (line lines : Nat) :
    Cursor.next ⟨text, line + lines⟩ =
      (match (Cursor.next ⟨text, line⟩).1 with
        | .ok token => .ok (token.down lines)
        | .error diagnostic => .error (diagnostic.down lines),
        ⟨(Cursor.next ⟨text, line⟩).2.rest, (Cursor.next ⟨text, line⟩).2.line + lines⟩) := by
  simp only [Cursor.next]
  split
  · rfl
  · rw [Nat.add_right_comm]
    rfl
  · next first rest _ _ => cases (tokenAt first rest).outcome <;> rfl

/-- What is read further down is the same, that many lines further down. -/
theorem scan_down (cursor : Cursor) (lines : Nat) :
    (scan ⟨cursor.rest, cursor.line + lines⟩).tokens =
        (scan cursor).tokens.map (Token.down lines) ∧
      (scan ⟨cursor.rest, cursor.line + lines⟩).ending = (scan cursor).ending.down lines := by
  fun_induction scan cursor with
  | case1 cursor fault after refused =>
    have below := next_down cursor.rest cursor.line lines
    rw [refused] at below
    rw [scan_of_next_error below]
    exact ⟨rfl, rfl⟩
  | case2 cursor token after read ended =>
    have below := next_down cursor.rest cursor.line lines
    rw [read] at below
    rw [scan_of_next_eof below ended]
    exact ⟨rfl, rfl⟩
  | case3 cursor token after read inside following induction =>
    have below := next_down cursor.rest cursor.line lines
    rw [read] at below
    rw [scan_of_next below inside]
    exact ⟨congrArg (token.down lines :: ·) induction.1, induction.2⟩

private theorem start_append_newline (first second : String) :
    Cursor.start (first ++ "\n" ++ second) =
      (Cursor.start first).followedBy (second.toList ++ ['\n']) := by
  simp [Cursor.start, Cursor.followedBy]

/-- A text without a fault ends on the line behind its last line feed. -/
theorem ending_scan_start {source : String} {bottom : Int}
    (finishes : (scan (Cursor.start source)).ending = .eof bottom) :
    bottom = (1 + (source.toList.count '\n' + 1) : Nat) := by
  obtain ⟨pieces, last, cut, -⟩ := Lexical.exists_cut_of_scan _ finishes
  have counted := cut.scan.2
  rw [show (⟨(Cursor.start source).rest, (Cursor.start source).line⟩ : Cursor) =
    Cursor.start source from rfl, finishes] at counted
  simpa [Cursor.start] using counted

end Lexer

/-- The tokens of two texts with a line feed between them: the fault of the first text, else that
of the second one further down, else the tokens of the first text without its end and those of the
second one further down. -/
theorem Lexer.tokens_append_newline (first second : String) :
    tokens (first ++ "\n" ++ second) =
      match tokens first, tokens second with
      | .error diagnostic, _ => .error diagnostic
      | .ok _, .error diagnostic =>
          .error (diagnostic.down (first.toList.count '\n' + 1))
      | .ok upper, .ok lower =>
          .ok (upper.dropLast ++ lower.map (Token.down (first.toList.count '\n' + 1))) := by
  have lines : EndsLine (Cursor.start first).rest := endsLine_append_newline _
  unfold tokens
  rw [start_append_newline]
  cases upper : (scan (Cursor.start first)).ending with
  | fault diagnostic =>
    have refused := scan_followedBy_of_fault lines (second.toList ++ ['\n']) upper
    simp only [Scan.complete, upper, refused]
  | eof bottom =>
    obtain rfl := ending_scan_start upper
    obtain ⟨tokens, ending⟩ := scan_followedBy_of_eof lines (second.toList ++ ['\n']) upper
    obtain ⟨tokens', ending'⟩ := scan_down (Cursor.start second) (first.toList.count '\n' + 1)
    have below : (⟨second.toList ++ ['\n'], 1 + (first.toList.count '\n' + 1)⟩ : Cursor) =
        ⟨(Cursor.start second).rest,
          (Cursor.start second).line + (first.toList.count '\n' + 1)⟩ := rfl
    rw [below, tokens'] at tokens
    rw [below, ending'] at ending
    cases lower : (scan (Cursor.start second)).ending with
    | fault diagnostic =>
      rw [lower] at ending
      simp only [Scan.complete, upper, lower, ending, Ending.down]
    | eof last =>
      rw [lower] at ending
      simp only [Scan.complete, upper, lower, ending, tokens, Ending.down, List.map_append,
        List.dropLast_concat, List.append_assoc]
      rfl

end TeenyBasic
