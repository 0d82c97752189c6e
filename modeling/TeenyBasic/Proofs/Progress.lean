import TeenyBasic.Proofs.CProgramTree
import TeenyBasic.Proofs.CursorSafety
import TeenyBasic.Proofs.LexicalGrammar

/-!
# Progress

No loop of the scanner, of the readers of formulas and of the translator counts its passes.  They
end because each pass takes something away: the scanner characters, the others tokens.  To say so,
`scan?`, `operandsAfter?` and `lines?` are the same loops with a budget of passes, like `run?` for
machines, and the budget suffices as soon as it is larger than the text.

A machine may run for ever, but only by `WHILE` or `GOTO`.  Without them every line leads forward
(`GoesForward.step`): also the line that skips a block, since the table of jumps leads from the
first word of a block to a later one, whatever the tokens are.  So a run visits each place at most
once (`GoesForward.pairwise_visited`) and ends before it has made as many steps as there are
tokens.
-/

namespace TeenyBasic

namespace Lexer

/-- Reads at most the given number of tokens, the end token included; there is no answer if that
was not enough. -/
def scan? : Nat → Cursor → Option Scan
  | 0, _ => none
  | budget + 1, cursor =>
      match cursor.next with
      | (.error diagnostic, after) => some ⟨[], .fault diagnostic, after⟩
      | (.ok token, after) =>
          if token.kind = .eof then some ⟨[], .eof token.line, after⟩
          else
            match scan? budget after with
            | none => none
            | some following => some { following with tokens := token :: following.tokens }

private theorem scan?_eq_some {cursor : Cursor} {budget : Nat}
    (enough : cursor.rest.length < budget) :
    scan? budget cursor = some (scan cursor) := by
  induction budget generalizing cursor with
  | zero => exact absurd enough (Nat.not_lt_zero _)
  | succ budget induction =>
    rw [scan?]
    rcases read : cursor.next with ⟨diagnostic | token, after⟩
    · rw [scan_of_next_error read]
    · by_cases ended : token.kind = .eof
      · rw [scan_of_next_eof read ended]
        simp only [ended, if_true]
      · have shorter := length_rest_next_lt read ended
        rw [scan_of_next read ended]
        simp only [ended, if_false, induction (show after.rest.length < budget by omega)]

/-- Every token but the end token has a character of its own. -/
theorem length_tokens_scan_le (cursor : Cursor) :
    (scan cursor).tokens.length ≤ cursor.rest.length := by
  fun_induction scan cursor with
  | case1 => exact Nat.zero_le _
  | case2 => exact Nat.zero_le _
  | case3 cursor token after read inside following induction =>
    have shorter := length_rest_next_lt read inside
    exact Nat.le_trans (Nat.succ_le_succ induction) shorter

end Lexer

namespace Formula

variable {α : Type} (accepts : Operator → Bool) (meaning : Meaning α) (ending : Ending)

/-- Reads at most the given number of operators with their operands and looks for another one; there
is no answer if that was not enough. -/
def operandsAfter? :
    Nat → List Token → Option (Except Diagnostic (List (Operator × α) × List Token))
  | 0, _ => none
  | _ + 1, [] => some (.ok ([], []))
  | budget + 1, token :: rest =>
      match token.lexeme.operator? with
      | none => some (.ok ([], token :: rest))
      | some operator =>
          if accepts operator then
            match operand meaning ending rest with
            | .error diagnostic => some (.error diagnostic)
            | .ok (value, after) =>
                match operandsAfter? budget after with
                | none => none
                | some (.error diagnostic) => some (.error diagnostic)
                | some (.ok (others, last)) => some (.ok ((operator, value) :: others, last))
          else some (.ok ([], token :: rest))

private theorem operandsAfter?_eq_some {tokens : List Token} {budget : Nat}
    (enough : tokens.length < budget) :
    operandsAfter? accepts meaning ending budget tokens =
      some (operandsAfter accepts meaning ending tokens) := by
  induction budget generalizing tokens with
  | zero => exact absurd enough (Nat.not_lt_zero _)
  | succ budget induction =>
    cases tokens with
    | nil => rw [operandsAfter?, operandsAfter]
    | cons token rest =>
      rw [operandsAfter?, operandsAfter]
      cases token.lexeme.operator? with
      | none => rfl
      | some operator =>
        simp only
        split
        · cases taken : operand meaning ending rest with
          | error diagnostic => rfl
          | ok found =>
            obtain ⟨value, after⟩ := found
            have shorter := length_operand_lt taken
            rw [List.length_cons] at enough
            simp only [induction (show after.length < budget by omega)]
            cases operandsAfter accepts meaning ending after <;> rfl
        · rfl

end Formula

namespace CProgram

/-- Writes at most the given number of lines, the end of the program included; there is no answer if
that was not enough. -/
def lines? (precision : Int) (ending : Ending) :
    Nat → Draft → List Block → List Token → Option (Except Diagnostic String)
  | 0, _, _, _ => none
  | _ + 1, draft, blocks, [] =>
      match ending with
      | .fault diagnostic => some (.error diagnostic)
      | .eof line =>
          if blocks.isEmpty then some (finish draft)
          else some (.error (.invalidStatement (Token.eofAt line)))
  | budget + 1, draft, blocks, token :: rest =>
      match wholeLine precision ending draft blocks token rest with
      | .error diagnostic => some (.error diagnostic)
      | .ok (draft, blocks, rest) => lines? precision ending budget draft blocks rest

/-- Translates a text with at most the given number of tokens and of lines; there is no answer if
that was not enough. -/
def ofSource? (budget : Nat) (precision : Int) (source : String) :
    Option (Except Diagnostic String) :=
  match Lexer.scan? budget (Lexer.Cursor.start source) with
  | none => none
  | some found =>
      lines? precision found.ending budget Draft.start []
        ((lookedAt found).dropWhile Token.isNewline)

private theorem lines?_eq_some {precision : Int} {ending : Ending} {draft : Draft}
    {blocks : List Block}
    {tokens : List Token} {budget : Nat} (enough : tokens.length < budget) :
    lines? precision ending budget draft blocks tokens =
      some (lines precision ending draft blocks tokens) := by
  induction budget generalizing draft blocks tokens with
  | zero => exact absurd enough (Nat.not_lt_zero _)
  | succ budget induction =>
    cases tokens with
    | nil =>
      cases ending with
      | fault diagnostic => simp only [lines?, lines]
      | eof line => simp only [lines?, lines, apply_ite some]
    | cons token rest =>
      rw [lines_cons, lines?]
      cases taken : wholeLine precision ending draft blocks token rest with
      | error diagnostic => rfl
      | ok written =>
        obtain ⟨draft', blocks', rest'⟩ := written
        have shorter := length_wholeLine_le taken
        rw [List.length_cons] at enough
        exact induction (by omega)

private theorem length_lookedAt_le (found : Lexer.Scan) :
    (lookedAt found).length ≤ found.tokens.length := by
  unfold lookedAt
  split
  · exact Nat.le_refl _
  · simp

/-- The translator answers on every text, within a number of passes that the length of the text
bounds. -/
theorem ofSource?_eq_some (precision : Int) {source : String} {budget : Nat}
    (enough : source.length + 1 < budget) :
    ofSource? budget precision source = some (ofSource precision source) := by
  have characters : (Lexer.Cursor.start source).rest.length < budget := by
    rw [Lexer.Cursor.start, List.length_append, String.length_toList]
    exact enough
  have tokens := Lexer.length_tokens_scan_le (Lexer.Cursor.start source)
  have looked := length_lookedAt_le (Lexer.scan (Lexer.Cursor.start source))
  have dropped := Lexer.length_dropWhile_le Token.isNewline
    (lookedAt (Lexer.scan (Lexer.Cursor.start source)))
  simp only [ofSource?, Lexer.scan?_eq_some characters]
  exact lines?_eq_some (by omega)

end CProgram

/-- No token leads back: there is neither a loop nor a jump. -/
def Straight (tokens : List Token) : Prop :=
  ∀ token ∈ tokens, token.kind ≠ .keyword .whileWord ∧ token.kind ≠ .keyword .gotoWord

namespace Machine

variable {machine next : Machine} {token : Token} {tokens : List Token} {block : Block}

/-- The line has taken tokens off the front for good: the cursor has moved forward. -/
structure Advances (machine next : Machine) : Prop where
  rest : next.rest <:+ machine.rest
  place : machine.place < next.place

theorem advances_of_suffix (cursor : machine.rest <:+ machine.program.body)
    (program : next.program = machine.program) (front : machine.rest = token :: tokens)
    (suffix : next.rest <:+ tokens) : machine.Advances next := by
  have shorter := suffix.length_le
  have inside := cursor.length_le
  refine ⟨?_, ?_⟩
  · rw [front]
    exact suffix.trans (List.suffix_cons token tokens)
  · rw [place, place, program]
    rw [front, List.length_cons] at inside ⊢
    omega

/-- A block that is skipped is left behind a word that stands behind its first one. -/
theorem forward_of_skips (tabled : machine.program.Tabled)
    (cursor : machine.rest <:+ machine.program.body) (front : machine.rest = token :: tokens)
    (opens : token.kind = .keyword block.opener) (skips : machine.Skips block next) :
    next.program = machine.program ∧ next.rest <:+ tokens := by
  obtain ⟨closer, last, there, -, plain⟩ := skips
  refine ⟨plain.program, plain.quiet.suffix.trans ?_⟩
  cases found : machine.program.destinations.closer? machine.place with
  | none =>
    simp [Program.closingFrom_of_closer?_eq_none tabled found, Program.tokensFrom] at there
  | some closing =>
    obtain ⟨taken, split⟩ := cursor
    rw [Destinations.closingFrom_of_closer? found, Int.toNat_natCast, Program.tokensFrom] at there
    rw [place_eq_length split] at found
    rw [front] at split
    have collected := tabled
    rw [Program.Tabled, ← split] at collected
    have quiet : Quiet tokens tokens := ⟨[], rfl, by simp⟩
    obtain ⟨skipped, closer', behind, rfl, -, there'⟩ :=
      Destinations.exists_closer_of_closer? collected opens quiet found
    rw [split, there] at there'
    obtain ⟨rfl, rfl⟩ := List.cons.inj there'
    exact (List.suffix_cons closer last).trans (List.suffix_append skipped _)

private theorem forward_of_line (tabled : machine.program.Tabled)
    (cursor : machine.rest <:+ machine.program.body) (front : machine.rest = token :: tokens)
    (noJump : token.kind ≠ .keyword .gotoWord) (taken : machine.line token tokens = .next next) :
    next.program = machine.program ∧ next.rest <:+ tokens := by
  have ofPlain (plain : Plain machine tokens next) :
      next.program = machine.program ∧ next.rest <:+ tokens := ⟨plain.program, plain.quiet.suffix⟩
  have ofOpener {block : Block} (opens : token.kind = .keyword block.opener)
      (taken : machine.openLine block tokens = .next next) :
      next.program = machine.program ∧ next.rest <:+ tokens := by
    rcases enters_or_skips taken with enters | skips
    · exact ⟨enters.program, enters.quiet.suffix⟩
    · exact forward_of_skips tabled cursor front opens skips
  unfold line at taken
  split at taken
  · exact ofPlain (plain_of_printLine taken)
  · next word => exact @ofOpener .conditional (congrArg Lexeme.kind word) taken
  · next word => exact @ofOpener .loop (congrArg Lexeme.kind word) taken
  · exact ofPlain (plain_of_labelLine taken)
  · next word => exact absurd (congrArg Lexeme.kind word) noJump
  · exact ofPlain (plain_of_letLine taken)
  · exact ofPlain (plain_of_inputLine taken)
  · cases taken

/-- What a machine keeps whose program has neither loops nor jumps. -/
structure GoesForward (machine : Machine) : Prop where
  tabled : machine.program.Tabled
  safe : machine.Safe
  straight : Straight machine.program.body

theorem GoesForward.advances (forward : machine.GoesForward) (taken : machine.step = .next next) :
    machine.Advances next := by
  obtain ⟨tabled, safe, straight⟩ := forward
  have cursor := safe.cursor
  have line {token : Token} {tokens : List Token} (front : machine.rest = token :: tokens)
      (taken : machine.line token tokens = .next next) : machine.Advances next := by
    have member : token ∈ machine.program.body := by
      apply cursor.mem
      rw [front]
      exact List.mem_cons_self
    obtain ⟨program, suffix⟩ := forward_of_line tabled cursor front (straight token member).2 taken
    exact advances_of_suffix cursor program front suffix
  unfold step at taken
  split at taken
  · cases taken
  · cases taken
  · next token rest front _ =>
    split at taken
    · cases taken
    · exact line front taken
  · next token rest block opener outer front opened =>
    split at taken
    · cases block with
      | conditional =>
        obtain ⟨quiet, program, -⟩ := plain_of_finishLine taken
        exact advances_of_suffix cursor program front quiet.suffix
      | loop =>
        -- a loop could only have been entered at its first word
        have member : (Block.loop, opener) ∈ machine.blocks := by
          rw [opened]
          exact List.mem_cons_self
        obtain ⟨word, here, opens⟩ := safe.openers .loop opener member
        exact absurd opens (straight word (List.mem_of_getElem? here)).1
    · exact line front taken

/-- Every step leads forward, and so does the next one. -/
theorem GoesForward.step (forward : machine.GoesForward) (taken : machine.step = .next next) :
    machine.Advances next ∧ next.GoesForward := by
  obtain ⟨program, safe⟩ := forward.safe.step taken
  refine ⟨forward.advances taken, ?_, safe, ?_⟩
  · rw [program]
    exact forward.tabled
  · rw [program]
    exact forward.straight

/-- The places at which a run of at most the given number of lines has its cursor. -/
def visited : Nat → Machine → List Nat
  | 0, _ => []
  | budget + 1, machine =>
      machine.place ::
        match machine.step with
        | .next next => visited budget next
        | _ => []

namespace GoesForward

theorem run {last : Machine} (forward : machine.GoesForward) (reached : Reaches machine last) :
    last.GoesForward := by
  induction reached with
  | here => exact forward
  | step _ taken induction => exact (induction.step taken).2

/-- A run makes no more steps than tokens are left, and one to see that there are none. -/
theorem exists_run? {budget : Nat} (forward : machine.GoesForward)
    (enough : machine.program.body.length < machine.place + budget) :
    ∃ stopped, machine.run? budget = some stopped := by
  induction budget generalizing machine with
  | zero =>
    have within : machine.place ≤ machine.program.body.length := Nat.sub_le _ _
    omega
  | succ budget induction =>
    rw [run?]
    cases taken : machine.step with
    | halt stopped => exact ⟨_, rfl⟩
    | fault stopped diagnostic => exact ⟨_, rfl⟩
    | next next =>
      obtain ⟨advances, forward'⟩ := forward.step taken
      have later := advances.place
      obtain ⟨program, -⟩ := forward.safe.step taken
      apply induction forward'
      rw [program]
      omega

private theorem le_of_mem_visited {budget place : Nat} (forward : machine.GoesForward)
    (member : place ∈ visited budget machine) : machine.place ≤ place := by
  induction budget generalizing machine with
  | zero => cases member
  | succ budget induction =>
    rw [visited] at member
    rcases List.mem_cons.mp member with rfl | member
    · exact Nat.le_refl _
    · cases taken : machine.step with
      | halt stopped => simp [taken] at member
      | fault stopped diagnostic => simp [taken] at member
      | next next =>
        obtain ⟨advances, forward'⟩ := forward.step taken
        simp only [taken] at member
        exact Nat.le_trans (Nat.le_of_lt advances.place) (induction forward' member)

/-- No place is visited twice. -/
theorem pairwise_visited (forward : machine.GoesForward) (budget : Nat) :
    (visited budget machine).Pairwise (· < ·) := by
  induction budget generalizing machine with
  | zero => exact .nil
  | succ budget induction =>
    rw [visited]
    cases taken : machine.step with
    | halt stopped => exact List.pairwise_singleton _ _
    | fault stopped diagnostic => exact List.pairwise_singleton _ _
    | next next =>
      obtain ⟨advances, forward'⟩ := forward.step taken
      refine List.pairwise_cons.mpr ⟨?_, induction forward'⟩
      intro place member
      exact Nat.lt_of_lt_of_le advances.place (forward'.le_of_mem_visited member)

end GoesForward

namespace Sample

/-- A line that prints, an end token in the middle, and the first word of a block at the end. -/
def truncatedTokens : List Token := [
  ⟨.keyword .printWord, "PRINT", 1⟩, ⟨.string "a", "a", 1⟩, ⟨.newline, "\n", 1⟩,
  Token.eofAt 2, ⟨.keyword .ifWord, "IF", 2⟩, Token.eofAt 2]

def truncated : Program :=
  ⟨truncatedTokens.dropLast, 2, ⟨[], [], 5⟩⟩

theorem load_truncated : Program.load truncatedTokens = .ok truncated := rfl

end Sample

/-- Tokens that end with an end token are a program, unless a label is declared twice. -/
theorem load_cases_of_eof {last : Token} (found : tokens.getLast? = some last)
    (atEnd : last.kind = .eof) :
    (∃ diagnostic, Program.load tokens = .error (.names diagnostic)) ∨
      ∃ program, Program.load tokens = .ok program := by
  simp only [Program.load, found, atEnd, if_true]
  cases Program.assemble tokens.dropLast last with
  | error diagnostic => exact .inl ⟨diagnostic, rfl⟩
  | ok program => exact .inr ⟨program, rfl⟩

/-- A run on the program ends within the given number of lines, each of which leads forward, so that
no place is visited twice. -/
structure RunsForward (program : Program) (input : List Char) (budget : Nat) : Prop where
  ends : ∃ stopped, (start program input).run? budget = some stopped
  advances : ∀ machine next, Reaches (start program input) machine → machine.step = .next next →
    machine.Advances next
  once : ∀ budget, (visited budget (start program input)).Pairwise (· < ·)

private theorem runsForward_of_load {program : Program} (loaded : Program.load tokens = .ok program)
    (straight : Straight tokens) (input : List Char) :
    RunsForward program input tokens.length := by
  have tabled := Program.tabled_of_load loaded
  obtain ⟨_, -, -, rfl⟩ := Program.load_eq_ok loaded
  have forward : (start program input).GoesForward := by
    refine ⟨tabled, safe_start program input, ?_⟩
    intro token member
    exact straight token (List.mem_append_left _ member)
  refine ⟨?_, ?_, forward.pairwise_visited⟩
  · apply forward.exists_run?
    rw [List.length_append]
    exact Nat.lt_of_lt_of_le (Nat.lt_succ_self _) (Nat.le_add_left _ _)
  · intro machine next reached taken
    exact ((forward.run reached).step taken).1

/-- **Everything ends that has no loop.**  The translator answers on every text within a budget that
is larger than the text, and every row of operators ends within the tokens there are.  Tokens that
end with an end token and hold no `WHILE` and no `GOTO`, however malformed, run for fewer lines than
there are tokens on every input: each line leads forward, and no place is visited twice. -/
theorem ends_of_straight :
    (∀ (precision : Int) (source : String) (budget : Nat), source.length + 1 < budget →
      CProgram.ofSource? budget precision source = some (CProgram.ofSource precision source)) ∧
    (∀ (α : Type) (accepts : Operator → Bool) (meaning : Meaning α) (ending : Ending)
      (row : List Token) (budget : Nat), row.length < budget →
      Formula.operandsAfter? accepts meaning ending budget row =
        some (Formula.operandsAfter accepts meaning ending row)) ∧
    ∀ (tokens : List Token) (last : Token), tokens.getLast? = some last → last.kind = .eof →
      Straight tokens →
      (∃ diagnostic, Program.load tokens = .error (.names diagnostic)) ∨
        ∃ program, Program.load tokens = .ok program ∧
          ∀ input, RunsForward program input tokens.length := by
  refine ⟨fun precision _ _ => CProgram.ofSource?_eq_some precision,
    fun _ accepts meaning ending _ _ => Formula.operandsAfter?_eq_some accepts meaning ending, ?_⟩
  intro tokens last found atEnd straight
  refine (load_cases_of_eof found atEnd).imp_right ?_
  rintro ⟨program, loaded⟩
  exact ⟨program, loaded, runsForward_of_load loaded straight⟩

/-- The run prints its line and ends at the end token in the middle. -/
theorem ends_of_straight_truncated :
    ∃ stopped, (start Sample.truncated []).run? 6 = some stopped ∧
      stopped.machine.output = "a\n" ∧ stopped.fault = none := by
  have straight : Straight Sample.truncatedTokens := by
    simp [Straight, Sample.truncatedTokens, Token.kind, Lexeme.kind, Token.eofAt]
  rcases ends_of_straight.2.2 Sample.truncatedTokens (Token.eofAt 2) rfl rfl straight with
    ⟨_, refused⟩ | ⟨program, loaded, forward⟩
  · cases refused.symm.trans Sample.load_truncated
  · obtain rfl : Sample.truncated = program :=
      Except.ok.inj (Sample.load_truncated.symm.trans loaded)
    obtain ⟨stopped, ran⟩ := (forward []).ends
    refine ⟨stopped, ran, ?_, ?_⟩
    · cases ran
      rfl
    · cases ran
      rfl

end Machine

end TeenyBasic
