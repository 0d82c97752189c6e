import TeenyBasic.Proofs.CursorSafety
import TeenyBasic.Proofs.FirstImpossibleToken
import TeenyBasic.Proofs.TokenPortions

/-!
# Lexical faults in a program

A program with a lexical fault is read as if it ended in front of the fault, until something looks
for a token there: what looks there reports the fault, and what does not behaves as if the end of
the program stood in its place (`Ending.Halts`).  So a fault is passed over only for a complaint
about an earlier token, and lines only grow from token to token (`Lexer.pairwise_line_scan`).
-/

namespace TeenyBasic

namespace Ending

variable {α β : Type}

def line : Ending → Int
  | eof line => line
  | fault diagnostic => diagnostic.line

/-- The result is the fault at the end of the tokens, or it is the one without a fault. -/
def Halts (ending : Ending) (result plain : Except Diagnostic α) : Prop :=
  (∃ diagnostic, ending = .fault diagnostic ∧ result = .error diagnostic) ∨ result = plain

variable (ending : Ending)

theorem halts_refuse (complaint : Token → Diagnostic) :
    ending.Halts (.error (ending.refuse complaint) : Except Diagnostic α)
      (.error ((eof ending.line).refuse complaint)) := by
  cases ending with
  | eof last => exact .inr rfl
  | fault diagnostic => exact .inl ⟨diagnostic, rfl, rfl⟩

theorem halts_expect (kind : Kind) (tokens : List Token) :
    ending.Halts (ending.expect kind tokens) ((eof ending.line).expect kind tokens) := by
  cases tokens with
  | nil => exact ending.halts_refuse _
  | cons token rest => exact .inr rfl

theorem halts_expectName (tokens : List Token) :
    ending.Halts (ending.expectName tokens) ((eof ending.line).expectName tokens) := by
  cases tokens with
  | nil => exact ending.halts_refuse _
  | cons token rest => exact .inr rfl

private theorem halts_expectLineEnd (tokens : List Token) :
    ending.Halts (ending.expectLineEnd tokens) ((eof ending.line).expectLineEnd tokens) := by
  unfold expectLineEnd
  rcases ending.halts_expect .newline tokens with ⟨diagnostic, isFault, stopped⟩ | same
  · exact .inl ⟨diagnostic, isFault, by rw [stopped]⟩
  · exact .inr (by rw [same])

private theorem halts_reachable (tokens : List Token) :
    ending.Halts (ending.reachable tokens) ((eof ending.line).reachable tokens) := by
  cases ending with
  | eof last => exact .inr rfl
  | fault diagnostic =>
    cases tokens with
    | nil => exact .inl ⟨diagnostic, rfl, rfl⟩
    | cons token rest => exact .inr rfl

end Ending

namespace Formula

variable {α : Type} {accepts : Operator → Bool} {meaning : Meaning α} (ending : Ending)

theorem halts_primaryBehind (sign : α → α) (tokens : List Token) :
    ending.Halts (primaryBehind meaning ending sign tokens)
      (primaryBehind meaning (.eof ending.line) sign tokens) := by
  cases tokens with
  | nil => exact ending.halts_refuse _
  | cons token rest => exact .inr rfl

private theorem halts_operand (tokens : List Token) :
    ending.Halts (operand meaning ending tokens) (operand meaning (.eof ending.line) tokens) := by
  cases tokens with
  | nil => exact ending.halts_refuse _
  | cons token rest =>
    simp only [operand]
    cases sign? meaning token.lexeme with
    | none => exact halts_primaryBehind ending id (token :: rest)
    | some sign => exact halts_primaryBehind ending sign rest

theorem halts_read_of {tokens : List Token}
    (inner : ∀ value after, operand meaning (.eof ending.line) tokens = .ok (value, after) →
      ending.Halts (operandsAfter accepts meaning ending after)
        (operandsAfter accepts meaning (.eof ending.line) after)) :
    ending.Halts (read accepts meaning ending tokens)
      (read accepts meaning (.eof ending.line) tokens) := by
  unfold read
  rcases halts_operand ending tokens with ⟨diagnostic, isFault, stopped⟩ | same
  · exact .inl ⟨diagnostic, isFault, by rw [stopped]⟩
  · rw [same]
    cases taken : operand meaning (.eof ending.line) tokens with
    | error diagnostic => exact .inr rfl
    | ok result =>
      obtain ⟨value, after⟩ := result
      dsimp only
      rcases inner value after taken with ⟨diagnostic, isFault, stopped⟩ | same
      · exact .inl ⟨diagnostic, isFault, by rw [stopped]⟩
      · exact .inr (by rw [same])

private theorem halts_operandsAfter (tokens : List Token) :
    ending.Halts (operandsAfter accepts meaning ending tokens)
      (operandsAfter accepts meaning (.eof ending.line) tokens) := by
  have stopping {tokens : List Token} (stops : Stops accepts tokens) :
      ending.Halts (operandsAfter accepts meaning ending tokens)
        (operandsAfter accepts meaning (.eof ending.line) tokens) := by
    rw [operandsAfter_of_stops stops, operandsAfter_of_stops stops]
    exact .inr rfl
  -- a row may go on behind every operand, so the induction is on how many tokens are left
  induction count : tokens.length using Nat.strongRecOn generalizing tokens with
  | ind count induction =>
    cases tokens with
    | nil => exact stopping (by rintro _ _ _ ⟨⟩)
    | cons token rest =>
      cases found : token.lexeme.operator? with
      | none => exact stopping (stops_of_operator?_eq_none found)
      | some operator =>
        cases accepted : accepts operator with
        | false =>
          refine stopping ?_
          rintro _ _ other ⟨⟩ found'
          obtain rfl := Option.some.inj (found.symm.trans found')
          exact accepted
        | true =>
          have row : ending.Halts (read accepts meaning ending rest)
              (read accepts meaning (.eof ending.line) rest) := by
            refine halts_read_of ending fun value after taken =>
              induction after.length ?_ after rfl
            have shorter := length_operand_lt taken
            rw [← count, List.length_cons]
            omega
          rw [operandsAfter_operator found accepted, operandsAfter_operator found accepted]
          rcases row with ⟨diagnostic, isFault, stopped⟩ | same
          · exact .inl ⟨diagnostic, isFault, by rw [stopped, Except.map]⟩
          · exact .inr (by rw [same])

theorem halts_read (tokens : List Token) :
    ending.Halts (read accepts meaning ending tokens)
      (read accepts meaning (.eof ending.line) tokens) :=
  halts_read_of ending fun _ after _ => halts_operandsAfter ending after

private theorem halts_condition (tokens : List Token) :
    ending.Halts (condition meaning ending tokens)
      (condition meaning (.eof ending.line) tokens) := by
  unfold condition
  rcases halts_read ending tokens with ⟨diagnostic, isFault, stopped⟩ | same
  · exact .inl ⟨diagnostic, isFault, by rw [stopped]⟩
  · rw [same]
    cases read (fun _ => true) meaning (.eof ending.line) tokens with
    | error diagnostic => exact .inr rfl
    | ok result =>
      obtain ⟨formula, rest⟩ := result
      dsimp only
      split
      · exact .inr rfl
      · cases rest with
        | nil => exact ending.halts_refuse _
        | cons token rest => exact .inr rfl

end Formula

namespace CProgram

variable {precision : Int} {draft : Draft} {blocks : List Block} (ending : Ending)

private theorem halts_printLine (tokens : List Token) :
    ending.Halts (printLine precision ending draft tokens)
      (printLine precision (.eof ending.line) draft tokens) := by
  unfold printLine
  split
  · exact .inr rfl
  · rcases Formula.halts_read ending tokens with ⟨diagnostic, isFault, stopped⟩ | same
    · exact .inl ⟨diagnostic, isFault, by rw [Formula.expression, stopped]⟩
    · exact .inr (by rw [Formula.expression, same, Formula.expression])

theorem halts_openLine (block : Block) (tokens : List Token) :
    ending.Halts (openLine block ending draft tokens)
      (openLine block (.eof ending.line) draft tokens) := by
  unfold openLine
  rcases Formula.halts_condition ending tokens with ⟨diagnostic, isFault, stopped⟩ | same
  · exact .inl ⟨diagnostic, isFault, by rw [stopped]⟩
  · rw [same]
    cases Formula.condition draft.meaning (.eof ending.line) tokens with
    | error diagnostic => exact .inr rfl
    | ok result =>
      dsimp only
      rcases ending.halts_expect (.keyword block.separator) result.2 with
        ⟨diagnostic, isFault, stopped⟩ | same
      · exact .inl ⟨diagnostic, isFault, by rw [stopped]⟩
      · exact .inr (by rw [same])

private theorem halts_labelLine (tokens : List Token) :
    ending.Halts (labelLine ending draft tokens) (labelLine (.eof ending.line) draft tokens) := by
  unfold labelLine
  rcases ending.halts_expectName tokens with ⟨diagnostic, isFault, stopped⟩ | same
  · exact .inl ⟨diagnostic, isFault, by rw [stopped]⟩
  · rw [same]
    cases (Ending.eof ending.line).expectName tokens with
    | error diagnostic => exact .inr rfl
    | ok result =>
      dsimp only
      rcases ending.halts_reachable result.2.2 with ⟨diagnostic, isFault, stopped⟩ | same
      · exact .inl ⟨diagnostic, isFault, by rw [stopped]⟩
      · exact .inr (by rw [same])

private theorem halts_gotoLine (tokens : List Token) :
    ending.Halts (gotoLine ending draft tokens) (gotoLine (.eof ending.line) draft tokens) := by
  unfold gotoLine
  rcases ending.halts_expectName tokens with ⟨diagnostic, isFault, stopped⟩ | same
  · exact .inl ⟨diagnostic, isFault, by rw [stopped]⟩
  · exact .inr (by rw [same])

private theorem halts_inputLine (tokens : List Token) :
    ending.Halts (inputLine ending draft tokens) (inputLine (.eof ending.line) draft tokens) := by
  unfold inputLine
  rcases ending.halts_expectName tokens with ⟨diagnostic, isFault, stopped⟩ | same
  · exact .inl ⟨diagnostic, isFault, by rw [stopped]⟩
  · exact .inr (by rw [same])

private theorem halts_letLine (tokens : List Token) :
    ending.Halts (letLine ending draft tokens) (letLine (.eof ending.line) draft tokens) := by
  unfold letLine
  rcases ending.halts_expectName tokens with ⟨diagnostic, isFault, stopped⟩ | same
  · exact .inl ⟨diagnostic, isFault, by rw [stopped]⟩
  · rw [same]
    cases (Ending.eof ending.line).expectName tokens with
    | error diagnostic => exact .inr rfl
    | ok result =>
      dsimp only
      rcases ending.halts_expect .assign result.2.2 with ⟨diagnostic, isFault, stopped⟩ | same
      · exact .inl ⟨diagnostic, isFault, by rw [stopped]⟩
      · rw [same]
        cases (Ending.eof ending.line).expect .assign result.2.2 with
        | error diagnostic => exact .inr rfl
        | ok rest =>
          dsimp only
          rcases Formula.halts_read ending rest with ⟨diagnostic, isFault, stopped⟩ | same
          · exact .inl ⟨diagnostic, isFault, by rw [Formula.expression, stopped]⟩
          · exact .inr (by rw [Formula.expression, same, Formula.expression])

theorem halts_inside {result plain : Except Diagnostic (Draft × List Token)}
    (halts : ending.Halts result plain) :
    ending.Halts (inside blocks result) (inside blocks plain) := by
  rcases halts with ⟨diagnostic, isFault, rfl⟩ | rfl
  · exact .inl ⟨diagnostic, isFault, rfl⟩
  · exact .inr rfl

private theorem halts_line (token : Token) (rest : List Token) :
    ending.Halts (line precision ending draft blocks token rest)
      (line precision (.eof ending.line) draft blocks token rest) := by
  unfold line
  split
  · exact halts_inside ending (halts_printLine ending rest)
  · exact halts_inside ending (halts_openLine ending .conditional rest)
  · exact halts_inside ending (halts_openLine ending .loop rest)
  · exact .inr rfl
  · exact .inr rfl
  · exact halts_inside ending (halts_labelLine ending rest)
  · exact halts_inside ending (halts_gotoLine ending rest)
  · exact halts_inside ending (halts_letLine ending rest)
  · exact halts_inside ending (halts_inputLine ending rest)
  · exact .inr rfl

/-- A line is written as if no fault stood behind the tokens, or the fault is reported. -/
theorem halts_wholeLine (token : Token) (rest : List Token) :
    ending.Halts (wholeLine precision ending draft blocks token rest)
      (wholeLine precision (.eof ending.line) draft blocks token rest) := by
  unfold wholeLine
  rcases halts_line ending token rest with ⟨diagnostic, isFault, stopped⟩ | same
  · exact .inl ⟨diagnostic, isFault, by rw [stopped]⟩
  · rw [same]
    cases line precision (.eof ending.line) draft blocks token rest with
    | error diagnostic => exact .inr rfl
    | ok result =>
      dsimp only
      rcases ending.halts_expectLineEnd result.2.2 with ⟨diagnostic, isFault, stopped⟩ | same
      · exact .inl ⟨diagnostic, isFault, by rw [stopped]⟩
      · exact .inr (by rw [same])

variable {ending}

private theorem about_of_wholeLine {token : Token} {rest : List Token} {diagnostic : Diagnostic}
    (refused : wholeLine precision ending draft blocks token rest = .error diagnostic) :
    ending = .fault diagnostic ∨
      ∃ behind, behind <:+ token :: rest ∧ diagnostic.About (frontOf ending.line behind) := by
  have read : wholeRow precision ending.line draft blocks (token :: rest) = _ :=
    wholeRow_cons token rest
  rcases halts_wholeLine ending token rest with ⟨other, isFault, stopped⟩ | same
  · obtain rfl := Except.error.inj (stopped.symm.trans refused)
    exact .inl isFault
  · rw [← same, refused] at read
    obtain ⟨taken, behind, split, about, -, -⟩ := (peeks_wholeRow _).error _ read
    exact .inr ⟨behind, split ▸ List.suffix_append taken behind, about⟩

private theorem suffix_of_wholeLine {token : Token} {rest behind : List Token} {next : Draft}
    {inner : List Block}
    (written : wholeLine precision ending draft blocks token rest = .ok (next, inner, behind)) :
    behind <:+ token :: rest := by
  have read : wholeRow precision ending.line draft blocks (token :: rest) = _ :=
    wholeRow_cons token rest
  rcases halts_wholeLine ending token rest with ⟨other, -, stopped⟩ | same
  · cases stopped.symm.trans written
  · rw [← same, written] at read
    obtain ⟨taken, split, -, -⟩ := (peeks_wholeRow _).ok _ behind read
    exact split ▸ List.suffix_append taken behind

/-- A program is refused for the fault behind its tokens, for a token or for a jump that leads
nowhere; the jumps are looked at only if no fault is there. -/
theorem about_of_lines {tokens : List Token} {diagnostic : Diagnostic}
    (refused : lines precision ending draft blocks tokens = .error diagnostic) :
    ending = .fault diagnostic ∨
      (∃ behind, behind <:+ tokens ∧ diagnostic.About (frontOf ending.line behind)) ∨
      ending = .eof ending.line ∧ ∃ name line, diagnostic = .undeclaredLabel name line := by
  fun_induction lines precision ending draft blocks tokens with
  | case1 draft blocks fault isFault =>
    cases refused
    exact .inl isFault
  | case2 draft blocks last atEnd closed =>
    subst atEnd
    exact .inr (.inr ⟨rfl, exists_undeclared_of_finish refused⟩)
  | case3 draft blocks last atEnd opened =>
    cases refused
    subst atEnd
    exact .inr (.inl ⟨[], List.suffix_rfl, .invalidStatement⟩)
  | case4 draft blocks token rest other unwritten =>
    cases refused
    rcases about_of_wholeLine unwritten with isFault | about
    · exact .inl isFault
    · exact .inr (.inl about)
  | case5 draft blocks token rest next inner behind written induction =>
    rcases induction refused with isFault | ⟨further, suffix, about⟩ | undeclared
    · exact .inl isFault
    · exact .inr (.inl ⟨further, suffix.trans (suffix_of_wholeLine written), about⟩)
    · exact .inr (.inr undeclared)

end CProgram

namespace Lexer

theorem line_of_next {cursor after : Cursor} {token : Token}
    (read : cursor.next = (.ok token, after)) :
    token.line = cursor.line ∧ (token.kind = .eof ∨ (cursor.line : Int) ≤ after.line) := by
  rcases Lexical.next_cases read with ⟨rfl, -⟩ | ⟨gap, raw, -, -, -, -, same, moved⟩
  · exact ⟨rfl, .inl rfl⟩
  · exact ⟨same, .inr (by omega)⟩

theorem fault_of_next_error {cursor after : Cursor} {diagnostic : Diagnostic}
    (refused : cursor.next = (.error diagnostic, after)) :
    diagnostic.line = cursor.line ∧ ∃ fault, diagnostic.fault = .lexical fault := by
  unfold Cursor.next at refused
  split at refused
  · cases refused
  · cases refused
  · dsimp only at refused
    split at refused
    · cases refused
    · cases refused
      exact ⟨rfl, _, rfl⟩

private theorem line_le_ending (cursor : Cursor) : cursor.line ≤ (scan cursor).ending.line := by
  fun_induction scan cursor with
  | case1 cursor diagnostic after refused => exact Int.le_of_eq (fault_of_next_error refused).1.symm
  | case2 cursor token after read ended => exact Int.le_of_eq (line_of_next read).1.symm
  | case3 cursor token after read inside following induction =>
    rcases (line_of_next read).2 with ended | moved
    · exact absurd ended inside
    · exact Int.le_trans moved induction

/-- The lines of tokens lie between that of the cursor and that of the end. -/
theorem line_of_mem_scan {cursor : Cursor} {token : Token} (member : token ∈ (scan cursor).tokens) :
    cursor.line ≤ token.line ∧ token.line ≤ (scan cursor).ending.line := by
  fun_induction scan cursor with
  | case1 => cases member
  | case2 => cases member
  | case3 cursor first after read inside following induction =>
    obtain ⟨same, ended | moved⟩ := line_of_next read
    · exact absurd ended inside
    · rcases List.mem_cons.mp member with rfl | member
      · rw [same]
        exact ⟨Int.le_refl _, Int.le_trans moved (line_le_ending after)⟩
      · obtain ⟨above, below⟩ := induction member
        exact ⟨Int.le_trans moved above, below⟩

/-- Tokens stand in the order of their lines. -/
theorem pairwise_line_scan (cursor : Cursor) :
    (scan cursor).tokens.Pairwise fun earlier later => earlier.line ≤ later.line := by
  fun_induction scan cursor with
  | case1 => exact .nil
  | case2 => exact .nil
  | case3 cursor first after read inside following induction =>
    refine .cons ?_ induction
    intro token member
    obtain ⟨same, ended | moved⟩ := line_of_next read
    · exact absurd ended inside
    · rw [same]
      exact Int.le_trans moved (line_of_mem_scan member).1

private theorem lexical_of_ending {cursor : Cursor} {diagnostic : Diagnostic}
    (faulty : (scan cursor).ending = .fault diagnostic) :
    ∃ fault, diagnostic.fault = .lexical fault := by
  fun_induction scan cursor with
  | case1 cursor other after refused =>
    cases faulty
    exact (fault_of_next_error refused).2
  | case2 => cases faulty
  | case3 cursor first after read inside following induction => exact induction faulty

end Lexer

namespace CProgram

private theorem mem_of_mem_lookedAt {found : Lexer.Scan} {token : Token}
    (member : token ∈ lookedAt found) :
    token ∈ found.tokens := by
  unfold lookedAt at member
  split at member
  · exact member
  · exact List.dropLast_subset _ member

/-- A complaint about a token of the text, or about its end, is not about a line behind the end. -/
theorem line_le_of_about {cursor : Lexer.Cursor} {behind : List Token} {diagnostic : Diagnostic}
    (suffix : behind <:+ (lookedAt (Lexer.scan cursor)).dropWhile Token.isNewline)
    (about : diagnostic.About (frontOf (Lexer.scan cursor).ending.line behind)) :
    diagnostic.line ≤ (Lexer.scan cursor).ending.line := by
  rw [about.line_eq]
  cases behind with
  | nil => exact Int.le_refl _
  | cons token rest =>
    have member : token ∈ lookedAt (Lexer.scan cursor) :=
      (List.dropWhile_suffix _).mem (suffix.mem List.mem_cons_self)
    exact (Lexer.line_of_mem_scan (mem_of_mem_lookedAt member)).2

/-- A lexical fault is reported of no text without one.  A text with one is refused: for the fault,
or for the grammar or a name on a line that is not behind it, and never for a jump that leads
nowhere. -/
theorem refused_for_lexical_fault (precision : Int) (source : String) :
    (∀ tokens diagnostic, Lexer.tokens source = .ok tokens →
      ofSource precision source = .error diagnostic →
      ∀ fault, diagnostic.fault ≠ .lexical fault) ∧
    ∀ fault, Lexer.tokens source = .error fault →
      (∃ lexical, fault.fault = .lexical lexical) ∧
      ∃ diagnostic, ofSource precision source = .error diagnostic ∧
        (diagnostic = fault ∨ diagnostic.line ≤ fault.line ∧
          ((∃ grammar, diagnostic.fault = .grammar grammar) ∨
            ∃ naming, diagnostic.fault = .naming naming ∧
              ∀ name, naming ≠ .undeclaredLabel name)) := by
  constructor
  · intro tokens diagnostic tokenized refused lexical same
    obtain ⟨line, ends, -⟩ := Lexer.Scan.exists_eof_of_complete tokenized
    unfold ofSource at refused
    rcases about_of_lines refused with isFault | ⟨behind, -, about⟩ | ⟨-, name, line', rfl⟩
    · cases ends.symm.trans isFault
    · rcases about.grammar_or_naming with ⟨grammar, other⟩ | ⟨naming, other⟩
      · cases same.symm.trans other
      · cases same.symm.trans other
    · cases same
  · intro fault faulty
    have ends := Lexer.Scan.ending_of_complete_eq_error faulty
    refine ⟨Lexer.lexical_of_ending ends, ?_⟩
    cases outcome : ofSource precision source with
    | ok code =>
      obtain ⟨⟨last, atEnd⟩, -⟩ := exists_remainder_of_lines outcome
      cases ends.symm.trans atEnd
    | error diagnostic =>
      refine ⟨diagnostic, rfl, ?_⟩
      rcases about_of_lines outcome with isFault | ⟨behind, suffix, about⟩ | ⟨atEnd, -⟩
      · cases ends.symm.trans isFault
        exact .inl rfl
      · have early := line_le_of_about suffix about
        rw [ends] at early
        refine .inr ⟨early, ?_⟩
        rcases about.grammar_or_naming with grammar | ⟨naming, isNaming⟩
        · exact .inl grammar
        · refine .inr ⟨naming, isNaming, ?_⟩
          rintro name rfl
          exact about.ne_undeclaredLabel name isNaming
      · cases ends.symm.trans atEnd

/-- The first text has no lexical fault, and in the second one the fault of the second line comes
behind a line that is no statement. -/
theorem refused_for_lexical_fault_late :
    (∀ fault, (Diagnostic.unexpectedOperand ⟨.keyword .thenWord, "THEN", 3⟩).fault ≠
      .lexical fault) ∧
    Lexer.tokens "a\n$" = .error ⟨2, .lexical (.unknownCharacter '$')⟩ ∧
    ∃ diagnostic, ofSource 2 "a\n$" = .error diagnostic ∧
      (diagnostic = ⟨2, .lexical (.unknownCharacter '$')⟩ ∨ diagnostic.line ≤ 2 ∧
        ((∃ grammar, diagnostic.fault = .grammar grammar) ∨
          ∃ naming, diagnostic.fault = .naming naming ∧
            ∀ name, naming ≠ .undeclaredLabel name)) := by
  have faulty : Lexer.tokens "a\n$" = .error ⟨2, .lexical (.unknownCharacter '$')⟩ := by
    cbv
  exact ⟨(refused_for_lexical_fault 2 Sample.brokenOff).1 _ _ Sample.tokens_brokenOff
      (Sample.ofSource_brokenOff 2),
    faulty, ((refused_for_lexical_fault 2 "a\n$").2 _ faulty).2⟩

end CProgram

end TeenyBasic
