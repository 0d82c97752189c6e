import TeenyBasic.Proofs.LineByLine
import TeenyBasic.Proofs.RespacedRuns

/-!
# The layout of a program

Blanks and a comment in front of a line feed and lines of nothing else behind it change the tokens
of a text in their lines and in the number of empty lines only.  So they change neither the C
program nor what a run of the program shows (`alike_of_layout`).
-/

namespace TeenyBasic

namespace Lexical

variable {gap rest rest' : List Char}

theorem Gap.congr (between : Gap gap rest) (same : rest.head? = rest'.head?) : Gap gap rest' := by
  cases between with
  | blanks blank => exact .blanks blank
  | comment blank inside boundary =>
    refine .comment blank inside ?_
    rcases boundary with boundary | rfl
    · exact .inl (same ▸ boundary)
    · exact .inr (List.head?_eq_none_iff.mp same.symm)

theorem Gap.newline (between : Gap gap []) (rest : List Char) : Gap gap ('\n' :: rest) := by
  cases between with
  | blanks blank => exact .blanks blank
  | comment blank inside _ => exact .comment blank inside (.inl rfl)

/-- More blanks or a comment make a longer gap in front of a line feed. -/
theorem Gap.append {more : List Char} (between : Gap gap ('\n' :: rest)) (further : Gap more []) :
    Gap (gap ++ more) ('\n' :: rest) := by
  have noFeed := further.not_newline
  cases between with
  | blanks blank =>
    have both {others : List Char} (blank' : ∀ character ∈ others, character ∈ [' ', '\t', '\r']) :
        ∀ character ∈ gap ++ others, character ∈ [' ', '\t', '\r'] := by
      intro character member
      rcases List.mem_append.mp member with member | member
      · exact blank character member
      · exact blank' character member
    cases further with
    | blanks blank' => exact .blanks (both blank')
    | comment blank' inside _ =>
      rw [← List.append_assoc]
      exact .comment (both blank') inside (.inl rfl)
  | comment blank inside _ =>
    rw [List.append_assoc, List.cons_append]
    refine .comment blank ?_ (.inl rfl)
    intro member
    rcases List.mem_append.mp member with member | member
    · exact inside member
    · exact noFeed member

theorem Maximal.congr {lexeme : Lexeme} {raw : List Char} (maximal : Maximal lexeme raw rest)
    (same : rest.head? = rest'.head?) : Maximal lexeme raw rest' := by
  unfold Maximal at maximal ⊢
  unfold Ends at maximal ⊢
  rw [same] at maximal
  exact maximal

/-- A gap or a line feed ends every lexeme. -/
theorem maximal_of_head {first : Char} (outside : first ∈ [' ', '\t', '\r', '#', '\n'])
    (lexeme : Lexeme) (raw rest : List Char) : Maximal lexeme raw (first :: rest) := by
  have facts : first.isDigit = false ∧ first.isAlpha = false ∧ first ≠ '.' ∧ first ≠ '=' := by
    revert outside
    generalize first = character
    simp only [List.mem_cons, List.not_mem_nil, or_false]
    rintro (rfl | rfl | rfl | rfl | rfl) <;> decide
  obtain ⟨digit, letter, point, sign⟩ := facts
  unfold Maximal
  split
  · exact ⟨ends_cons.mpr digit, fun _ => by simpa using point⟩
  · exact ends_cons.mpr letter
  · exact ends_cons.mpr letter
  · simpa using sign
  · simpa using sign
  · simpa using sign
  · trivial

theorem Gap.exists_head {gap : List Char} (between : Gap gap []) (rest : List Char) :
    ∃ first tail, gap ++ '\n' :: rest = first :: tail ∧ first ∈ [' ', '\t', '\r', '#', '\n'] := by
  have ofBlank {first : Char} (blank : first ∈ [' ', '\t', '\r']) :
      first ∈ [' ', '\t', '\r', '#', '\n'] := List.mem_append_left ['#', '\n'] blank
  cases between with
  | blanks blank =>
    cases gap with
    | nil => exact ⟨'\n', rest, rfl, by decide⟩
    | cons first tail => exact ⟨first, _, rfl, ofBlank (blank first List.mem_cons_self)⟩
  | @comment blanks comment _ blank _ _ =>
    cases blanks with
    | nil => exact ⟨'#', _, rfl, by decide⟩
    | cons first tail => exact ⟨first, _, rfl, ofBlank (blank first List.mem_cons_self)⟩

theorem Written.eq_newline {lexeme : Lexeme} {written : String} {raw : List Char}
    (spelled : Written lexeme written raw) (feed : '\n' ∈ raw) :
    lexeme = .newline ∧ written = "\n" ∧ raw = ['\n'] := by
  by_cases newline : lexeme = .newline
  · subst newline
    cases spelled
    exact ⟨rfl, rfl, rfl⟩
  · exact absurd feed (spelled.not_newline newline)

/-- Before a line feed, a token is the line feed itself behind a gap, or it stands in front of the
line feed. -/
theorem next_newline_cases {text lower : List Char} {line : Nat} {after : Lexer.Cursor}
    {token : Token} (read : Lexer.Cursor.next ⟨text ++ '\n' :: lower, line⟩ = (.ok token, after)) :
    (token = ⟨.newline, "\n", line⟩ ∧ Gap text ('\n' :: lower) ∧ after = ⟨lower, line + 1⟩) ∨
    ∃ gap raw upper, text = gap ++ (raw ++ upper) ∧ after.rest = upper ++ '\n' :: lower ∧
      Gap gap (raw ++ after.rest) ∧ Written token.lexeme token.text raw ∧
      Maximal token.lexeme raw after.rest ∧ token.line = line ∧
      after.line = line + raw.count '\n' := by
  obtain ⟨rest, below⟩ := after
  obtain ⟨lexeme, written, here⟩ := token
  rcases next_cases read with
    ⟨-, gap⟩ | ⟨gap, raw, whole, between, spelled, maximal, rfl, rfl⟩
  · exact absurd (List.mem_append_right text List.mem_cons_self) gap.not_newline
  -- the line feed is not in the gap, and in the lexeme only if it is all of it
  have feed (same : text = gap) (feeds : '\n' :: lower = raw ++ rest) :
      (⟨lexeme, written, (line : Int)⟩ : Token) = ⟨.newline, "\n", line⟩ ∧
        Gap text ('\n' :: lower) ∧
        (⟨rest, line + raw.count '\n'⟩ : Lexer.Cursor) = ⟨lower, line + 1⟩ := by
    obtain ⟨first, tail, rfl, -⟩ := spelled.exists_head
    obtain ⟨rfl, -⟩ := List.cons.inj feeds
    obtain ⟨rfl, rfl, single⟩ := spelled.eq_newline List.mem_cons_self
    rw [single] at feeds
    obtain ⟨-, rfl⟩ := List.cons.inj feeds
    rw [single] at between ⊢
    exact ⟨rfl, same ▸ between, rfl⟩
  rcases List.append_eq_append_iff.mp whole with ⟨middle, more, feeds⟩ | ⟨middle, more, others⟩
  · cases middle with
    | nil =>
      rw [List.append_nil] at more
      exact .inl (feed more.symm feeds)
    | cons first middle =>
      obtain ⟨rfl, -⟩ := List.cons.inj feeds
      exact absurd (more ▸ List.mem_append_right text List.mem_cons_self) between.not_newline
  · rcases List.append_eq_append_iff.mp others with ⟨upper, split, remains⟩ | ⟨upper, split, feeds⟩
    · exact .inr ⟨gap, raw, upper, split ▸ more, remains, between, spelled, maximal, rfl, rfl⟩
    · cases upper with
      | nil =>
        rw [List.append_nil] at split
        refine .inr ⟨gap, raw, [], ?_, feeds.symm, between, spelled, maximal, rfl, rfl⟩
        rw [more, split, List.append_nil]
      | cons first upper =>
        obtain ⟨rfl, -⟩ := List.cons.inj feeds
        have single := (spelled.eq_newline (split ▸ List.mem_append_right middle
          List.mem_cons_self)).2.2
        obtain rfl : middle = [] := by
          have lengths := congrArg List.length (split.symm.trans single)
          simp only [List.length_append, List.length_cons, List.length_nil] at lengths
          exact List.eq_nil_of_length_eq_zero (by omega)
        exact .inl (feed (by rw [more, List.append_nil]) others.symm)

end Lexical

namespace Lexer

/-- Both texts are without fault, and their tokens are respaced behind the empty lines in front. -/
def SameBelow (found found' : Scan) : Prop :=
  (∃ bottom, found'.ending = .eof bottom) ∧
    Respaced (found.tokens.dropWhile Token.isNewline) (found'.tokens.dropWhile Token.isNewline)

private theorem respaced_map_down (tokens : List Token) (lines lines' : Nat) :
    Respaced (tokens.map (Token.down lines)) (tokens.map (Token.down lines')) := by
  induction tokens with
  | nil => exact .nil
  | cons token tokens induction => exact induction.cons ⟨rfl, rfl⟩

/-- The line on which a text begins changes the lines of its tokens only. -/
theorem sameBelow_of_lines {text : List Char} {line : Nat} {bottom : Int} (line' : Nat)
    (finishes : (scan ⟨text, line⟩).ending = .eof bottom) :
    SameBelow (scan ⟨text, line⟩) (scan ⟨text, line'⟩) := by
  have down := scan_down ⟨text, 0⟩ line
  have down' := scan_down ⟨text, 0⟩ line'
  simp only [Nat.zero_add] at down down'
  rw [down.2] at finishes
  refine ⟨?_, ?_⟩
  · rw [down'.2]
    cases ending : (scan ⟨text, 0⟩).ending with
    | eof last => exact ⟨_, rfl⟩
    | fault diagnostic =>
      rw [ending] at finishes
      cases finishes
  · rw [down.1, down'.1]
    exact (respaced_map_down _ line line').dropWhile

theorem scan_gap_newline {gap lower : List Char} (between : Lexical.Gap gap ('\n' :: lower))
    (line : Nat) :
    scan ⟨gap ++ '\n' :: lower, line⟩ =
      { scan ⟨lower, line + 1⟩ with
        tokens := ⟨.newline, "\n", line⟩ :: (scan ⟨lower, line + 1⟩).tokens } :=
  scan_of_next (Lexical.next_gap_append between .newline trivial) nofun

/-- Lines of blanks and comments change the lines of the tokens below them only. -/
theorem sameBelow_of_blanks {blanks : List (List Char)}
    (empty : ∀ blank ∈ blanks, Lexical.Gap blank []) {lower : List Char} {line : Nat} {bottom : Int}
    (line' : Nat) (finishes : (scan ⟨lower, line⟩).ending = .eof bottom) :
    SameBelow (scan ⟨lower, line⟩)
      (scan ⟨blanks.foldr (fun blank below => blank ++ '\n' :: below) lower, line'⟩) := by
  induction blanks generalizing line' with
  | nil => exact sameBelow_of_lines line' finishes
  | cons blank blanks induction =>
    have others := induction (fun other member => empty other (List.mem_cons_of_mem _ member))
      (line' + 1)
    rw [List.foldr_cons, scan_gap_newline ((empty blank List.mem_cons_self).newline _)]
    exact others

/-- A gap in front of a line feed and other lines below it. -/
theorem respaced_scan {gap lower lower' : List Char} (between : Lexical.Gap gap [])
    (below : ∀ line bottom, (scan ⟨lower, line⟩).ending = .eof bottom →
      SameBelow (scan ⟨lower, line⟩) (scan ⟨lower', line⟩))
    {text : List Char} {line : Nat} {bottom : Int}
    (finishes : (scan ⟨text ++ '\n' :: lower, line⟩).ending = .eof bottom) :
    (∃ bottom', (scan ⟨text ++ gap ++ '\n' :: lower', line⟩).ending = .eof bottom') ∧
      Respaced (scan ⟨text ++ '\n' :: lower, line⟩).tokens
        (scan ⟨text ++ gap ++ '\n' :: lower', line⟩).tokens := by
  suffices spaced : ∀ cursor : Cursor, ∀ text line, cursor = ⟨text ++ '\n' :: lower, line⟩ →
      (scan cursor).ending = .eof bottom →
      (∃ bottom', (scan ⟨text ++ gap ++ '\n' :: lower', line⟩).ending = .eof bottom') ∧
        Respaced (scan cursor).tokens (scan ⟨text ++ gap ++ '\n' :: lower', line⟩).tokens from
    spaced _ text line rfl finishes
  intro cursor
  fun_induction scan cursor with
  | case1 =>
    intro _ _ _ finishes
    cases finishes
  | case2 cursor token after read ended =>
    rintro text line rfl -
    rcases Lexical.next_newline_cases read with ⟨rfl, -⟩ | ⟨_, _, _, -, -, -, spelled, -⟩
    · cases ended
    · exact absurd ended spelled.kind_ne_eof
  | case3 cursor token after read inside following induction =>
    rintro text line rfl finishes
    rcases Lexical.next_newline_cases read with
      ⟨rfl, gap', rfl⟩ |
        ⟨gap', raw, upper, rfl, remains, between', spelled, maximal, atLine, below'⟩
    · -- the line feed in question
      obtain ⟨finishes', respaced⟩ := below _ _ finishes
      have extended : Lexical.Gap (text ++ gap) ('\n' :: lower') :=
        (gap'.congr rfl : Lexical.Gap text ('\n' :: lower')).append between
      rw [scan_gap_newline extended]
      exact ⟨finishes', .lineEnd (.refl _) rfl respaced⟩
    · -- a token in front of it, and what follows the token begins as before or with the gap
      obtain ⟨rest, line'⟩ := after
      obtain ⟨lexeme, written, here⟩ := token
      obtain rfl : rest = upper ++ '\n' :: lower := remains
      obtain rfl : line' = line + raw.count '\n' := below'
      obtain rfl : here = line := atLine
      obtain ⟨finishes', respaced⟩ := induction upper _ rfl finishes
      have between₁ : Lexical.Gap gap' (raw ++ (upper ++ gap ++ '\n' :: lower')) := by
        obtain ⟨first, tail, rfl, -⟩ := spelled.exists_head
        exact between'.congr rfl
      have maximal₁ : Lexical.Maximal lexeme raw (upper ++ gap ++ '\n' :: lower') := by
        cases upper with
        | nil =>
          obtain ⟨first, tail, begins, outside⟩ := between.exists_head lower'
          rw [List.nil_append, begins]
          exact Lexical.maximal_of_head outside lexeme raw tail
        | cons first upper => exact maximal.congr rfl
      have extended : Cursor.next ⟨gap' ++ (raw ++ upper) ++ gap ++ '\n' :: lower', line⟩ =
          (.ok ⟨lexeme, written, line⟩,
            ⟨upper ++ gap ++ '\n' :: lower', line + raw.count '\n'⟩) := by
        simpa only [List.append_assoc] using Lexical.next_gap_append between₁ spelled maximal₁
      rw [scan_of_next extended inside]
      exact ⟨finishes', respaced.cons (.refl _)⟩

end Lexer

/-- What is seen of a program that was run: what it printed, and its variables or the fault that
stopped it. -/
structure Observation where
  printed : String
  outcome : Except Fault Symbols

/-- What is seen of a run that has ended. -/
def Machine.Stopped.observation (stopped : Stopped) : Observation where
  printed := stopped.machine.output
  outcome :=
    match stopped.fault with
    | none => .ok stopped.machine.symbols
    | some diagnostic => .error diagnostic.fault

/-- What is seen if a text is run as a program with the given input; there is nothing to be seen if
the run does not end. -/
def Shows (source : String) (input : List Char) (observation : Observation) : Prop :=
  match Program.ofSource source with
  | .error diagnostic => observation = ⟨"", .error diagnostic.fault⟩
  | .ok program =>
      ∃ budget stopped, (Machine.start program input).run? budget = some stopped ∧
        stopped.observation = observation

private theorem Machine.SameEnd.observation_eq {stopped stopped' : Stopped}
    (same : SameEnd stopped stopped') : stopped.observation = stopped'.observation := by
  obtain ⟨machine, fault⟩ := stopped
  obtain ⟨machine', fault'⟩ := stopped'
  obtain ⟨world, faults⟩ := same
  have printed : machine.output = machine'.output := congrArg World.output world
  have symbols : machine.symbols = machine'.symbols := congrArg World.symbols world
  cases fault with
  | none =>
    cases fault' with
    | none => rw [Stopped.observation, Stopped.observation, printed, symbols]
    | some diagnostic' => cases faults
  | some diagnostic =>
    cases fault' with
    | none => cases faults
    | some diagnostic' =>
      have faults : diagnostic.fault = diagnostic'.fault := Option.some.inj faults
      simp only [Stopped.observation, printed, faults]

private theorem Agree.mapError_eq {α : Type} {first second : Except Diagnostic α}
    (agree : Agree Eq first second) :
    first.mapError Diagnostic.fault = second.mapError Diagnostic.fault := by
  cases agree with
  | ok same => rw [same]
  | error same => exact congrArg Except.error same

/-- Respaced texts show the same. -/
theorem shows_iff {source source' : String} {line line' : Int}
    (ends : (Lexer.scan (Lexer.Cursor.start source)).ending = .eof line)
    (ends' : (Lexer.scan (Lexer.Cursor.start source')).ending = .eof line')
    (respaced : Respaced (Lexer.scan (Lexer.Cursor.start source)).tokens
      (Lexer.scan (Lexer.Cursor.start source')).tokens)
    (input : List Char) (observation : Observation) :
    Shows source input observation ↔ Shows source' input observation := by
  simp only [Shows, Program.ofSource, ends, ends']
  rcases (Program.assemble_agree respaced line line').cases with
    ⟨diagnostic, diagnostic', refused, refused', fault⟩ | ⟨program, program', made, made', twins⟩
  · simp only [refused, refused', fault]
  · simp only [made, made']
    refine exists_congr fun budget => ?_
    have runs := Machine.run?_start_rel twins input budget
    generalize (Machine.start program input).run? budget = result at runs ⊢
    generalize (Machine.start program' input).run? budget = result' at runs ⊢
    cases runs with
    | none => simp
    | some same => simp [same.observation_eq]

def linesAbove (lines : List String) (text : String) : String :=
  lines.foldr (fun line below => line ++ "\n" ++ below) text

private theorem toList_linesAbove_append (lines : List String) (text : String) (more : List Char) :
    (linesAbove lines text).toList ++ more =
      (lines.map String.toList).foldr (fun line below => line ++ '\n' :: below)
        (text.toList ++ more) := by
  induction lines with
  | nil => rfl
  | cons line lines induction =>
    have split : linesAbove (line :: lines) text = line ++ "\n" ++ linesAbove lines text := rfl
    rw [split, List.map_cons, List.foldr_cons, ← induction]
    simp

/-- The tokens of the text in another layout are respaced. -/
theorem Lexer.respaced_of_layout {upper gap lower : String} {blanks : List String} {bottom : Int}
    (finishes : (scan (Cursor.start (upper ++ "\n" ++ lower))).ending = .eof bottom)
    (between : Lexical.Gap gap.toList [])
    (empty : ∀ blank ∈ blanks, Lexical.Gap blank.toList []) :
    (∃ bottom', (scan (Cursor.start (upper ++ gap ++ "\n" ++ linesAbove blanks lower))).ending =
        .eof bottom') ∧
      Respaced (scan (Cursor.start (upper ++ "\n" ++ lower))).tokens
        (scan (Cursor.start (upper ++ gap ++ "\n" ++ linesAbove blanks lower))).tokens := by
  have start : Cursor.start (upper ++ "\n" ++ lower) =
      ⟨upper.toList ++ '\n' :: (lower.toList ++ ['\n']), 1⟩ := by
    simp [Cursor.start]
  have start' : Cursor.start (upper ++ gap ++ "\n" ++ linesAbove blanks lower) =
      ⟨upper.toList ++ gap.toList ++ '\n' :: ((linesAbove blanks lower).toList ++ ['\n']), 1⟩ := by
    simp [Cursor.start]
  have lines : ∀ blank ∈ blanks.map String.toList, Lexical.Gap blank [] := by
    intro blank member
    obtain ⟨line, inside, rfl⟩ := List.mem_map.mp member
    exact empty line inside
  rw [start] at finishes
  rw [start, start', toList_linesAbove_append]
  exact respaced_scan between (fun line _ => sameBelow_of_blanks lines line) finishes

/-- Blanks and a comment in front of a line feed, and lines of blanks and comments behind it, do not
matter to a text without a lexical fault: it is put into the same C program or refused for the same
fault, and with every input it shows the same. -/
theorem alike_of_layout {upper gap lower : String} {blanks : List String} {tokens : List Token}
    (tokenized : Lexer.tokens (upper ++ "\n" ++ lower) = .ok tokens)
    (between : Lexical.Gap gap.toList [])
    (empty : ∀ blank ∈ blanks, Lexical.Gap blank.toList []) :
    (∀ precision,
      (CProgram.ofSource precision
          (upper ++ gap ++ "\n" ++ linesAbove blanks lower)).mapError Diagnostic.fault =
        (CProgram.ofSource precision (upper ++ "\n" ++ lower)).mapError Diagnostic.fault) ∧
    ∀ input observation,
      Shows (upper ++ gap ++ "\n" ++ linesAbove blanks lower) input observation ↔
        Shows (upper ++ "\n" ++ lower) input observation := by
  obtain ⟨line, finishes, -⟩ := Lexer.Scan.exists_eof_of_complete tokenized
  obtain ⟨⟨line', finishes'⟩, respaced⟩ := Lexer.respaced_of_layout finishes between empty
  constructor
  · intro precision
    have agree := CProgram.ofSource_agree line line' precision finishes finishes' respaced
    exact agree.mapError_eq.symm
  · intro input observation
    exact (shows_iff finishes finishes' respaced input observation).symm

/-- A jump with a comment behind it and with empty lines between it and its label. -/
theorem alike_of_layout_commented :
    Lexer.tokens ("GOTO a" ++ "\n" ++ "LABEL a") = .ok [
      ⟨.keyword .gotoWord, "GOTO", 1⟩, ⟨.identifier "a", "a", 1⟩, ⟨.newline, "\n", 1⟩,
      ⟨.keyword .labelWord, "LABEL", 2⟩, ⟨.identifier "a", "a", 2⟩, ⟨.newline, "\n", 2⟩,
      Token.eofAt 3] ∧
    ∀ input observation,
      Shows ("GOTO a" ++ "\t# away" ++ "\n" ++ linesAbove ["", " # here"] "LABEL a") input
          observation ↔
        Shows ("GOTO a" ++ "\n" ++ "LABEL a") input observation := by
  have tokenized : Lexer.tokens ("GOTO a" ++ "\n" ++ "LABEL a") = .ok [
      ⟨.keyword .gotoWord, "GOTO", 1⟩, ⟨.identifier "a", "a", 1⟩, ⟨.newline, "\n", 1⟩,
      ⟨.keyword .labelWord, "LABEL", 2⟩, ⟨.identifier "a", "a", 2⟩, ⟨.newline, "\n", 2⟩,
      Token.eofAt 3] := by
    cbv
  have away : Lexical.Gap "\t# away".toList [] :=
    @Lexical.Gap.comment ['\t'] " away".toList [] (by simp) (by simp) (.inr rfl)
  have here : Lexical.Gap " # here".toList [] :=
    @Lexical.Gap.comment [' '] " here".toList [] (by simp) (by simp) (.inr rfl)
  have empty : ∀ blank ∈ ["", " # here"], Lexical.Gap blank.toList [] := by
    intro blank member
    rcases List.mem_cons.mp member with rfl | member
    · exact .blanks (by simp)
    · rw [List.mem_singleton.mp member]
      exact here
  exact ⟨tokenized, (alike_of_layout tokenized away empty).2⟩

end TeenyBasic
