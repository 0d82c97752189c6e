import TeenyBasic.Proofs.Acceptance
import TeenyBasic.Proofs.GrammarKinds
import TeenyBasic.Proofs.Layout

/-!
# Texts put together from lines

If a text is put together from whole lines, its lexemes are those of the lines, one after the other
(`Spelled.append`), and so are its statements (`Tells.append`).  The lines on which tokens stand are
others then, so trees are compared without them.
-/

namespace TeenyBasic

namespace Lexical

/-- The lexemes that a text spells, whatever line it begins on. -/
inductive Spelled : List Char → List Lexeme → Prop
  | nothing {text} : Gap text [] → Spelled text []
  | cons {gap raw rest lexeme written lexemes} :
      Gap gap (raw ++ rest) →
      Written lexeme written raw →
      Maximal lexeme raw rest →
      Spelled rest lexemes →
      Spelled (gap ++ (raw ++ rest)) (lexeme :: lexemes)

variable {text more : List Char} {lexemes others : List Lexeme}

private theorem spelled_of_scan (cursor : Lexer.Cursor) {bottom : Int}
    (ends : (Lexer.scan cursor).ending = .eof bottom) :
    Spelled cursor.rest ((Lexer.scan cursor).tokens.map Token.lexeme) := by
  fun_induction Lexer.scan cursor with
  | case1 => cases ends
  | case2 cursor token after read ended =>
    rcases next_cases read with ⟨-, between⟩ | ⟨gap, raw, -, -, written, -⟩
    · exact .nothing between
    · exact absurd ended written.kind_ne_eof
  | case3 cursor token after read inside following induction =>
    rcases next_cases read with ⟨rfl, -⟩ | ⟨gap, raw, whole, between, written, maximal, -⟩
    · exact absurd rfl inside
    · rw [whole]
      exact .cons between written maximal (induction ends)

theorem Spelled.scan (spelled : Spelled text lexemes) (line : Nat) :
    (∃ bottom, (Lexer.scan ⟨text, line⟩).ending = .eof bottom) ∧
      (Lexer.scan ⟨text, line⟩).tokens.map Token.lexeme = lexemes := by
  induction spelled generalizing line with
  | nothing between =>
    rw [Lexer.scan_of_next_eof (next_gap line between) rfl]
    exact ⟨⟨_, rfl⟩, rfl⟩
  | @cons gap raw rest lexeme written lexemes between spelling maximal _ induction =>
    rw [Lexer.scan_of_next (next_gap_append between spelling maximal) spelling.kind_ne_eof]
    obtain ⟨ends, found⟩ := induction (line + raw.count '\n')
    exact ⟨ends, congrArg (lexeme :: ·) found⟩

theorem Written.ne_nil {lexeme : Lexeme} {written : String} {raw : List Char}
    (spelling : Written lexeme written raw) : raw ≠ [] := by
  obtain ⟨first, tail, rfl, -⟩ := spelling.exists_head
  exact List.cons_ne_nil first tail

theorem Spelled.eq_nil (spelled : Spelled [] lexemes) : lexemes = [] := by
  generalize empty : ([] : List Char) = text at spelled
  cases spelled with
  | nothing _ => rfl
  | cons _ spelling _ _ =>
    rw [eq_comm, List.append_eq_nil_iff, List.append_eq_nil_iff] at empty
    exact absurd empty.2.1 spelling.ne_nil

theorem Gap.behind_blanks {blanks gap rest : List Char} (between : Gap gap rest)
    (blank : ∀ character ∈ blanks, character ∈ [' ', '\t', '\r']) : Gap (blanks ++ gap) rest := by
  have both {gap : List Char} (also : ∀ character ∈ gap, character ∈ [' ', '\t', '\r']) :
      ∀ character ∈ blanks ++ gap, character ∈ [' ', '\t', '\r'] := by
    intro character member
    rcases List.mem_append.mp member with member | member
    · exact blank character member
    · exact also character member
  cases between with
  | blanks also => exact .blanks (both also)
  | comment also noFeed ends =>
    rw [← List.append_assoc]
    exact .comment (both also) noFeed ends

private theorem Gap.blank_of_not_mem {gap rest : List Char} (between : Gap gap rest)
    (noMark : '#' ∉ gap) :
    ∀ character ∈ gap, character ∈ [' ', '\t', '\r'] := by
  cases between with
  | blanks blank => exact blank
  | comment _ _ _ => simp at noMark

theorem Spelled.behind_blanks {blanks : List Char} (spelled : Spelled text lexemes)
    (blank : ∀ character ∈ blanks, character ∈ [' ', '\t', '\r']) :
    Spelled (blanks ++ text) lexemes := by
  cases spelled with
  | nothing between => exact .nothing (between.behind_blanks blank)
  | cons between spelling maximal further =>
    rw [← List.append_assoc]
    exact .cons (between.behind_blanks blank) spelling maximal further

/-- Whole lines are read as they are, whatever follows. -/
theorem Spelled.append (first : Spelled text lexemes) (ends : Lexer.EndsLine text)
    (second : Spelled more others) : Spelled (text ++ more) (lexemes ++ others) := by
  induction first with
  | @nothing text between =>
    by_cases empty : text = []
    · subst empty
      exact second
    · exact absurd (ends.mem empty) between.not_newline
  | @cons gap raw rest lexeme written lexemes between spelling maximal further induction =>
    have sameHead : (raw ++ rest).head? = (raw ++ (rest ++ more)).head? := by
      obtain ⟨first, tail, rfl, -⟩ := spelling.exists_head
      rfl
    have behind : rest <:+ gap ++ (raw ++ rest) :=
      (List.suffix_append raw rest).trans (List.suffix_append gap _)
    have stillMaximal : Maximal lexeme raw (rest ++ more) := by
      cases rest with
      | nil =>
        -- the text ends with this lexeme, which is the end of a line then
        rw [List.append_nil] at ends
        have feed := (ends.suffix (List.suffix_append gap raw)).mem spelling.ne_nil
        by_cases newline : lexeme = .newline
        · subst newline
          trivial
        · exact absurd feed (spelling.not_newline newline)
      | cons _ _ => exact maximal.congr rfl
    rw [List.append_assoc, List.append_assoc]
    exact .cons (between.congr sameHead) spelling stillMaximal (induction (ends.suffix behind))

/-- What stands in front of the end of a line is a part of that line. -/
theorem exists_cut_of_not_mem {front rest : List Char} (whole : text ++ ['\n'] = front ++ rest)
    (inside : '\n' ∉ front) : ∃ text', text = front ++ text' ∧ rest = text' ++ ['\n'] := by
  rcases List.append_eq_append_iff.mp whole with ⟨more, same, ended⟩ | ⟨more, same, ended⟩
  · cases more with
    | nil => exact ⟨[], by simpa using same.symm, by simpa using ended.symm⟩
    | cons first more =>
      obtain ⟨rfl, -⟩ := List.cons.inj ended
      simp [same] at inside
  · exact ⟨more, same, ended⟩

/-- A line without a comment can be continued behind a blank. -/
theorem Spelled.continued (spelled : Spelled (text ++ ['\n']) lexemes) (noFeed : '\n' ∉ text)
    (noMark : '#' ∉ text) :
    ∃ taken, lexemes = taken ++ [.newline] ∧
      ∀ more others, Spelled more others → Spelled (text ++ ' ' :: more) (taken ++ others) := by
  generalize whole : text ++ ['\n'] = line at spelled
  induction spelled generalizing text with
  | nothing between =>
    subst whole
    exact absurd (List.mem_append_right text List.mem_cons_self) between.not_newline
  | @cons gap raw rest lexeme written lexemes between spelling maximal further induction =>
    obtain ⟨text, rfl, behind⟩ := exists_cut_of_not_mem whole between.not_newline
    have blank : ∀ character ∈ gap, character ∈ [' ', '\t', '\r'] :=
      between.blank_of_not_mem fun member => noMark (List.mem_append_left _ member)
    have noFeed : '\n' ∉ text := fun member => noFeed (List.mem_append_right _ member)
    have noMark : '#' ∉ text := fun member => noMark (List.mem_append_right _ member)
    by_cases newline : lexeme = .newline
    · subst newline
      cases spelling
      cases text with
      | cons first text =>
        obtain ⟨rfl, -⟩ := List.cons.inj behind
        simp at noFeed
      | nil =>
        obtain rfl : rest = [] := by simpa using behind
        obtain rfl := further.eq_nil
        refine ⟨[], rfl, ?_⟩
        intro more others spelled
        have spaced : Spelled (' ' :: more) others :=
          @Spelled.behind_blanks _ _ [' '] spelled (by simp)
        rw [List.append_nil]
        exact spaced.behind_blanks blank
    · obtain ⟨text, rfl, rfl⟩ :=
        exists_cut_of_not_mem behind.symm (spelling.not_newline newline)
      obtain ⟨taken, rfl, continues⟩ :=
        induction (fun member => noFeed (List.mem_append_right _ member))
          (fun member => noMark (List.mem_append_right _ member)) rfl
      refine ⟨lexeme :: taken, rfl, ?_⟩
      intro more others spelled
      have stillMaximal : Maximal lexeme raw (text ++ ' ' :: more) := by
        cases text with
        | nil => exact maximal_of_head (by simp) _ _ _
        | cons _ _ => exact maximal.congr rfl
      rw [List.append_assoc, List.append_assoc]
      exact .cons (.blanks blank) spelling stillMaximal (continues more others spelled)

/-- A lexeme in front of a blank. -/
theorem Spelled.lexeme_blank {lexeme : Lexeme} {written : String} {raw : List Char}
    (spelled : Spelled text lexemes) (spelling : Written lexeme written raw) :
    Spelled (raw ++ ' ' :: text) (lexeme :: lexemes) := by
  have spaced : Spelled (' ' :: text) lexemes := @Spelled.behind_blanks _ _ [' '] spelled (by simp)
  exact @Spelled.cons [] _ _ _ _ _ (.blanks (by simp)) spelling
    (maximal_of_head (by simp) _ _ _) spaced

/-- A lexeme at the end of a line. -/
theorem Spelled.lexeme_newline {lexeme : Lexeme} {written : String} {raw : List Char}
    (spelled : Spelled text lexemes) (spelling : Written lexeme written raw) :
    Spelled (raw ++ '\n' :: text) (lexeme :: .newline :: lexemes) := by
  have ended : Spelled ('\n' :: text) (.newline :: lexemes) :=
    @Spelled.cons [] _ _ _ _ _ (.blanks (by simp)) .newline trivial spelled
  exact @Spelled.cons [] _ _ _ _ _ (.blanks (by simp)) spelling
    (maximal_of_head (by simp) _ _ _) ended

theorem spelled_of_tokens {source : String} {body : List Token} {last : Int}
    (tokenized : Lexer.tokens source = .ok (body ++ [Token.eofAt last])) :
    Spelled (source.toList ++ ['\n']) (body.map Token.lexeme) := by
  obtain ⟨tokens, ends⟩ := Lexer.scan_of_tokens tokenized
  rw [← tokens]
  exact spelled_of_scan (Lexer.Cursor.start source) ends

theorem Spelled.exists_tokens {source : String}
    (spelled : Spelled (source.toList ++ ['\n']) lexemes) :
    ∃ body last, Lexer.tokens source = .ok (body ++ [Token.eofAt last]) ∧
      body.map Token.lexeme = lexemes := by
  obtain ⟨⟨last, ends⟩, found⟩ := spelled.scan 1
  refine ⟨_, last, ?_, found⟩
  rw [Lexer.tokens, Lexer.Cursor.start, Lexer.Scan.complete, ends]

end Lexical

namespace Statement

@[simp] theorem unplacedAll_append (first second : List Statement) :
    unplacedAll (first ++ second) = unplacedAll first ++ unplacedAll second := by
  induction first with
  | nil => rfl
  | cons statement rest induction => rw [List.cons_append, unplacedAll, unplacedAll, induction]; rfl

theorem AllAlike.append {first first' second second' : List Statement}
    (front : AllAlike first' first) (back : AllAlike second' second) :
    AllAlike (first' ++ second') (first ++ second) := by
  unfold AllAlike at *
  rw [unplacedAll_append, unplacedAll_append, front, back]

end Statement

namespace Grammar

open Statement (AllAlike)

variable {tokens middle rest : List Token} {lexemes others : List Lexeme}
  {tree tree' : List Statement}

theorem Statements.append (first : Statements tokens tree middle)
    (second : Statements middle tree' rest) : Statements tokens (tree ++ tree') rest := by
  induction first with
  | none => exact second
  | line whole ends _ induction => exact .line whole ends (induction second)
  | block compared ends inner ends' _ _ induction =>
    exact .block compared ends inner ends' (induction second)

/-- Tokens with these lexemes are statements that differ from the given ones in their lines only. -/
def Tells (lexemes : List Lexeme) (tree : List Statement) : Prop :=
  ∀ tokens behind, tokens.map Token.lexeme = lexemes →
    ∃ tree', Statements (tokens ++ behind) tree' behind ∧ AllAlike tree' tree

theorem Tells.append (first : Tells lexemes tree) (second : Tells others tree') :
    Tells (lexemes ++ others) (tree ++ tree') := by
  intro tokens behind same
  obtain ⟨front, back, rfl, sameFront, sameBack⟩ := List.map_eq_append_iff.mp same
  obtain ⟨found, derived, alike⟩ := first front (back ++ behind) sameFront
  obtain ⟨found', derived', alike'⟩ := second back behind sameBack
  refine ⟨found ++ found', ?_, alike.append alike'⟩
  rw [List.append_assoc]
  exact derived.append derived'

theorem Newline.absorb {token : Token} (ends : Newline tokens (token :: rest))
    (empty : token.lexeme = .newline) : Newline tokens rest := by
  obtain ⟨_, text, line⟩ := token
  obtain rfl : _ = Lexeme.newline := empty
  generalize behind : (⟨.newline, text, line⟩ : Token) :: rest = last at ends
  induction ends with
  | one =>
    subst behind
    exact .more .one
  | more _ induction => exact .more (induction behind)

/-- An empty line behind statements is a part of the last one. -/
theorem Statements.absorb {token : Token} (derived : Statements tokens tree (token :: rest))
    (empty : token.lexeme = .newline) (nonempty : tree ≠ []) : Statements tokens tree rest := by
  generalize behind : token :: rest = last at derived
  induction derived with
  | none => exact absurd rfl nonempty
  | @line _ _ _ _ _ statements first ends others induction =>
    subst behind
    cases statements with
    | nil =>
      cases others
      exact .line first (ends.absorb empty) .none
    | cons _ _ => exact .line first ends (induction (List.cons_ne_nil _ _) rfl)
  | @block _ _ _ _ _ _ _ _ _ statements _ _ _ _ _ _ compared ends inner ends' others _ induction =>
    subst behind
    cases statements with
    | nil =>
      cases others
      exact .block compared ends inner (ends'.absorb empty) .none
    | cons _ _ => exact .block compared ends inner ends' (induction (List.cons_ne_nil _ _) rfl)

theorem exists_token_of_map {lexeme : Lexeme}
    (same : tokens.map Token.lexeme = lexeme :: lexemes) :
    ∃ text line rest, tokens = ⟨lexeme, text, line⟩ :: rest ∧ rest.map Token.lexeme = lexemes := by
  obtain ⟨⟨_, text, line⟩, rest, rfl, rfl, others⟩ := List.map_eq_cons_iff.mp same
  exact ⟨text, line, rest, rfl, others⟩

theorem newline_of_map {blank : Nat}
    (same : tokens.map Token.lexeme = .newline :: List.replicate blank .newline)
    (behind : List Token) : Newline (tokens ++ behind) behind := by
  induction blank generalizing tokens with
  | zero =>
    obtain ⟨text, line, rest, rfl, none⟩ := exists_token_of_map same
    obtain rfl := List.map_eq_nil_iff.mp none
    exact .one
  | succ blank induction =>
    obtain ⟨text, line, rest, rfl, others⟩ := exists_token_of_map same
    exact .more (induction others)

theorem tells_label (name : String) (line : Int) :
    Tells [.keyword .labelWord, .identifier name, .newline] [.label name line] := by
  intro tokens behind same
  obtain ⟨_, _, _, rfl, named⟩ := exists_token_of_map same
  obtain ⟨_, _, _, rfl, ended⟩ := exists_token_of_map named
  exact ⟨_, .line .label (@newline_of_map _ 0 ended behind) .none, rfl⟩

theorem tells_goto (name : String) (line : Int) :
    Tells [.keyword .gotoWord, .identifier name, .newline] [.goto name line] := by
  intro tokens behind same
  obtain ⟨_, _, _, rfl, named⟩ := exists_token_of_map same
  obtain ⟨_, _, _, rfl, ended⟩ := exists_token_of_map named
  exact ⟨_, .line .goto (@newline_of_map _ 0 ended behind) .none, rfl⟩

/-- Tokens with these lexemes are a comparison that differs from the given one in its lines only. -/
def Compares (lexemes : List Lexeme) (condition : Condition) : Prop :=
  ∀ tokens behind, tokens.map Token.lexeme = lexemes →
    ∃ condition', Comparison (tokens ++ behind) condition' behind ∧ condition'.Alike condition

/-- Empty lines may follow the first and the last line of a block. -/
theorem Compares.tells_block {condition : Condition} (compared : Compares lexemes condition)
    (inner : Tells others tree) (block : Block) (blank blank' : Nat) :
    Tells (.keyword block.opener :: (lexemes ++ .keyword block.separator :: .newline ::
      (List.replicate blank .newline ++ (others ++ .keyword block.closer :: .newline ::
        List.replicate blank' .newline)))) [.block block condition tree] := by
  intro tokens behind same
  obtain ⟨_, _, _, rfl, header⟩ := exists_token_of_map same
  obtain ⟨front, _, rfl, sameFront, separated⟩ := List.map_eq_append_iff.mp header
  obtain ⟨_, _, _, rfl, ended⟩ := exists_token_of_map separated
  rw [← List.cons_append] at ended
  obtain ⟨ends, _, rfl, sameEnds, inside⟩ := List.map_eq_append_iff.mp ended
  obtain ⟨body, _, rfl, sameBody, closed⟩ := List.map_eq_append_iff.mp inside
  obtain ⟨_, _, ends', rfl, sameEnds'⟩ := exists_token_of_map closed
  obtain ⟨condition', derived, alike⟩ := compared front _ sameFront
  obtain ⟨tree', derived', alike'⟩ := inner body _ sameBody
  refine ⟨[.block block condition' tree'], ?_, .cons (.block alike alike') rfl⟩
  simp only [List.cons_append, List.append_assoc]
  exact .block derived (newline_of_map sameEnds _) derived' (newline_of_map sameEnds' behind) .none

theorem Tells.eq_nil (tells : Tells lexemes []) : lexemes = [] := by
  have tokens :
      (lexemes.map fun lexeme => (⟨lexeme, "", 1⟩ : Token)).map Token.lexeme = lexemes := by
    rw [List.map_map]
    exact List.map_id lexemes
  obtain ⟨tree', derived, alike⟩ := tells _ [] tokens
  obtain rfl : tree' = [] := by
    cases tree' with
    | nil => rfl
    | cons _ _ => simp [AllAlike, Statement.unplacedAll] at alike
  generalize lexemes.map (fun lexeme => (⟨lexeme, "", 1⟩ : Token)) = found at tokens derived
  rw [List.append_nil] at derived
  cases derived
  exact tokens.symm

theorem Tells.newline (tells : Tells lexemes tree) (nonempty : tree ≠ []) :
    Tells (lexemes ++ [.newline]) tree := by
  intro tokens behind same
  obtain ⟨front, back, rfl, sameFront, sameBack⟩ := List.map_eq_append_iff.mp same
  obtain ⟨token, rfl, empty⟩ := List.map_eq_singleton_iff.mp sameBack
  obtain ⟨tree', derived, alike⟩ := tells front (token :: behind) sameFront
  have nonempty' : tree' ≠ [] := by
    rintro rfl
    cases tree with
    | nil => exact nonempty rfl
    | cons _ _ => simp [AllAlike, Statement.unplacedAll] at alike
  refine ⟨tree', ?_, alike⟩
  rw [List.append_assoc]
  exact derived.absorb empty nonempty'

theorem map_kind_of_map_lexeme {other : List Token}
    (same : other.map Token.lexeme = tokens.map Token.lexeme) :
    other.map Token.kind = tokens.map Token.kind := by
  have kinds := congrArg (List.map Lexeme.kind) same
  rwa [List.map_map, List.map_map] at kinds

theorem Comparison.compares {condition : Condition} (derived : Comparison tokens condition []) :
    Compares (tokens.map Token.lexeme) condition := by
  obtain ⟨taken, rfl, -, retell⟩ := derived.retold
  rw [List.append_nil]
  intro other behind same
  obtain ⟨condition', derived', alike⟩ := retell other behind (map_kind_of_map_lexeme same)
  exact ⟨condition', derived', alike same⟩

theorem Statements.tells (derived : Statements tokens tree []) :
    Tells (tokens.map Token.lexeme) tree := by
  obtain ⟨taken, rfl, -, retell⟩ := derived.retold
  rw [List.append_nil]
  intro other behind same
  obtain ⟨tree', derived', alike⟩ := retell other behind (map_kind_of_map_lexeme same)
  exact ⟨tree', derived', alike same⟩

/-- The lexemes of a program are those of its statements, behind empty lines. -/
theorem Program.tells (derived : Program tokens tree) :
    ∃ blank lexemes, tokens.map Token.lexeme = List.replicate blank .newline ++ lexemes ∧
      Tells lexemes tree := by
  induction derived with
  | statements derived => exact ⟨0, _, rfl, derived.tells⟩
  | newline _ induction =>
    obtain ⟨blank, lexemes, same, tells⟩ := induction
    exact ⟨blank + 1, lexemes, congrArg (Lexeme.newline :: ·) same, tells⟩

private theorem Tells.exists_program {blank : Nat} (tells : Tells lexemes tree)
    (same : tokens.map Token.lexeme = List.replicate blank .newline ++ lexemes) :
    ∃ tree', Program tokens tree' ∧ AllAlike tree' tree := by
  induction blank generalizing tokens with
  | zero =>
    obtain ⟨tree', derived, alike⟩ := tells tokens [] same
    rw [List.append_nil] at derived
    exact ⟨tree', .statements derived, alike⟩
  | succ blank induction =>
    obtain ⟨text, line, rest, rfl, others⟩ := exists_token_of_map same
    obtain ⟨tree', derived, alike⟩ := induction others
    exact ⟨tree', .newline derived, alike⟩

end Grammar

/-- The text is empty, or it is a sequence of statements with a line feed at its end. -/
inductive WholeLines : String → List Statement → Prop
  | none : WholeLines "" []
  | lines {text tree} : SourceTree text tree → WholeLines (text ++ "\n") tree

theorem WholeLines.endsLine {text : String} {tree : List Statement}
    (whole : WholeLines text tree) : Lexer.EndsLine text.toList := by
  cases whole with
  | none => simp [Lexer.EndsLine]
  | @lines text _ _ =>
    rw [String.toList_append]
    exact Lexer.endsLine_append_newline text.toList

theorem SourceTree.exists_spelled {text : String} {tree : List Statement}
    (derives : SourceTree text tree) :
    ∃ blank lexemes,
      Lexical.Spelled (text.toList ++ ['\n']) (List.replicate blank .newline ++ lexemes) ∧
      Grammar.Tells lexemes tree := by
  obtain ⟨body, last, tokenized, derived⟩ := derives
  obtain ⟨blank, lexemes, same, tells⟩ := derived.tells
  exact ⟨blank, lexemes, same ▸ Lexical.spelled_of_tokens tokenized, tells⟩

theorem WholeLines.exists_spelled {text : String} {tree : List Statement}
    (whole : WholeLines text tree) :
    ∃ blank lexemes, Lexical.Spelled text.toList (List.replicate blank .newline ++ lexemes) ∧
      Grammar.Tells lexemes tree := by
  cases whole with
  | none =>
    refine ⟨0, [], .nothing (.blanks (by simp)), ?_⟩
    intro tokens behind same
    obtain rfl := List.map_eq_nil_iff.mp same
    exact ⟨[], .none, rfl⟩
  | @lines text _ derives =>
    rw [String.toList_append]
    exact derives.exists_spelled

/-- One more line feed is read behind whole lines. -/
theorem WholeLines.exists_spelled_newline {text : String} {tree : List Statement}
    (whole : WholeLines text tree) :
    ∃ blank lexemes,
      Lexical.Spelled (text.toList ++ ['\n']) (List.replicate blank .newline ++ lexemes) ∧
      Grammar.Tells lexemes tree := by
  obtain ⟨blank, lexemes, spelled, tells⟩ := whole.exists_spelled
  have feed : Lexical.Spelled ['\n'] [.newline] :=
    @Lexical.Spelled.cons [] _ _ _ _ _ (.blanks (by simp)) .newline trivial
      (.nothing (.blanks (by simp)))
  have longer := spelled.append whole.endsLine feed
  by_cases empty : tree = []
  · subst empty
    obtain rfl := tells.eq_nil
    rw [List.append_nil, ← List.replicate_succ'] at longer
    exact ⟨blank + 1, [], by rwa [List.append_nil], tells⟩
  · rw [List.append_assoc] at longer
    exact ⟨blank, lexemes ++ [.newline], longer, tells.newline empty⟩

theorem exists_sourceTree_of_spelled {source : String} {tree : List Statement} {blank : Nat}
    {lexemes : List Lexeme}
    (spelled : Lexical.Spelled (source.toList ++ ['\n']) (List.replicate blank .newline ++ lexemes))
    (tells : Grammar.Tells lexemes tree) :
    ∃ tree', SourceTree source tree' ∧ Statement.AllAlike tree' tree := by
  obtain ⟨body, last, tokenized, same⟩ := spelled.exists_tokens
  obtain ⟨tree', derived, alike⟩ := tells.exists_program same
  exact ⟨tree', ⟨body, last, tokenized, derived⟩, alike⟩

end TeenyBasic
