import TeenyBasic.Lexer

/-!
# The lexical grammar

A text is made of lexemes and of gaps between them.  This module says how each lexeme is written,
what a gap may hold and where a lexeme may end, and when a text is cut into such pieces (`Cut`),
without saying how the pieces are found.  The lexer finds the only way to cut a text, and it fails
where there is none (`Lexer.tokens_eq_ok_iff`).
-/

namespace TeenyBasic

theorem Keyword.isAlpha_of_mem_text (word : Keyword) :
    ∀ character ∈ word.text.toList, character.isAlpha = true := by
  cases word <;> exact List.all_eq_true.mp rfl

theorem Keyword.text_toList_ne_nil (word : Keyword) : word.text.toList ≠ [] := by
  cases word <;> decide

section Scans

variable {cursor after : Lexer.Cursor} {token : Token}

theorem Lexer.scan_of_next_eof (read : cursor.next = (.ok token, after))
    (ended : token.kind = .eof) : scan cursor = ⟨[], .eof token.line, after⟩ := by
  rw [scan]
  split
  · next fault => cases read.symm.trans fault
  · next found =>
    cases read.symm.trans found
    rw [dif_pos ended]

theorem Lexer.scan_of_next (read : cursor.next = (.ok token, after))
    (inside : token.kind ≠ .eof) :
    scan cursor = { scan after with tokens := token :: (scan after).tokens } := by
  rw [scan]
  split
  · next fault => cases read.symm.trans fault
  · next found =>
    cases read.symm.trans found
    rw [dif_neg inside]

theorem Lexer.scan_of_next_error {diagnostic : Diagnostic}
    (refused : cursor.next = (.error diagnostic, after)) :
    scan cursor = ⟨[], .fault diagnostic, after⟩ := by
  rw [scan]
  split
  · next found =>
    cases refused.symm.trans found
    rfl
  · next found => cases refused.symm.trans found

end Scans

namespace Lexical

/-- A run of blanks, perhaps with a comment behind it that goes on up to a line feed or the end;
`rest` is what follows. -/
inductive Gap : List Char → List Char → Prop
  | blanks {blanks rest} : (∀ character ∈ blanks, character ∈ [' ', '\t', '\r']) → Gap blanks rest
  | comment {blanks comment rest} :
      (∀ character ∈ blanks, character ∈ [' ', '\t', '\r']) →
      '\n' ∉ comment →
      rest.head? = some '\n' ∨ rest = [] →
      Gap (blanks ++ '#' :: comment) rest

/-- How a lexeme is written in a program: the lexeme, the text of its token and its characters. -/
inductive Written : Lexeme → String → List Char → Prop
  | newline : Written .newline "\n" ['\n']
  | assign : Written .assign "=" ['=']
  | arithmetic (operator : Arithmetic) :
      Written (.arithmetic operator) operator.text operator.text.toList
  | relation (operator : Relation) :
      Written (.relation operator) operator.text operator.text.toList
  | keyword (word : Keyword) : Written (.keyword word) word.text word.text.toList
  | identifier {letters} :
      letters ≠ [] →
      (∀ character ∈ letters, character.isAlpha = true) →
      (∀ word : Keyword, word.text ≠ String.ofList letters) →
      Written (.identifier (String.ofList letters)) (String.ofList letters) letters
  | whole {digits} :
      digits ≠ [] →
      (∀ character ∈ digits, character.isDigit = true) →
      Written (.number (Lexer.numberValue digits [])) (String.ofList digits) digits
  | fraction {digits decimals} :
      digits ≠ [] →
      (∀ character ∈ digits, character.isDigit = true) →
      decimals ≠ [] →
      (∀ character ∈ decimals, character.isDigit = true) →
      Written (.number (Lexer.numberValue digits decimals))
        (String.ofList (digits ++ '.' :: decimals)) (digits ++ '.' :: decimals)
  | string {content} :
      (∀ character ∈ content, character ∉ ['\r', '\n', '\t', '%', '\\', '"']) →
      Written (.string (String.ofList content)) (String.ofList content) ('"' :: content ++ ['"'])

/-- What follows does not begin with a character of a class. -/
def Ends (isMember : Char → Bool) (rest : List Char) : Prop :=
  ∀ character, rest.head? = some character → isMember character = false

/-- A lexeme, written with the given characters, does not go on in what follows. -/
def Maximal (lexeme : Lexeme) (raw rest : List Char) : Prop :=
  match lexeme with
  | .number _ => Ends Char.isDigit rest ∧ ('.' ∉ raw → rest.head? ≠ some '.')
  | .identifier _ | .keyword _ => Ends Char.isAlpha rest
  | .assign | .relation .less | .relation .greater => rest.head? ≠ some '='
  | _ => True

/-- A token with the characters that it is written with and the gap in front of it. -/
structure Piece where
  gap : List Char
  raw : List Char
  token : Token

def Piece.text (piece : Piece) : List Char :=
  piece.gap ++ piece.raw

/-- A text that begins on the given line is cut into pieces and a last gap.  The line of a token
is the first one plus the number of line feeds in front of its lexeme. -/
structure Cut (line : Nat) (text : List Char) (pieces : List Piece) (last : List Char) : Prop where
  text_eq : text = pieces.flatMap Piece.text ++ last
  gap : ∀ before (piece : Piece) after, pieces = before ++ piece :: after →
    Gap piece.gap (piece.raw ++ (after.flatMap Piece.text ++ last))
  written : ∀ piece ∈ pieces, Written piece.token.lexeme piece.token.text piece.raw
  maximal : ∀ before (piece : Piece) after, pieces = before ++ piece :: after →
    Maximal piece.token.lexeme piece.raw (after.flatMap Piece.text ++ last)
  line_eq : ∀ before (piece : Piece) after, pieces = before ++ piece :: after →
    piece.token.line = (line + (before.flatMap Piece.text ++ piece.gap).count '\n' : Nat)
  last_gap : Gap last []

theorem isAlpha_iff (character : Char) :
    character.isAlpha = true ↔
      (65 ≤ character.toNat ∧ character.toNat ≤ 90) ∨
        (97 ≤ character.toNat ∧ character.toNat ≤ 122) := by
  have isAlpha_eq : character.isAlpha =
      (decide (65 ≤ character.val ∧ character.val ≤ 90) ||
        (decide (97 ≤ character.val) && decide (character.val ≤ 122))) := rfl
  rw [isAlpha_eq]
  simp only [Bool.or_eq_true, Bool.and_eq_true, decide_eq_true_eq, UInt32.le_iff_toNat_le]
  exact Iff.rfl

theorem isLetter_eq : Lexer.isLetter = Char.isAlpha := by
  funext character
  rw [Bool.eq_iff_iff, isAlpha_iff]
  simp only [Lexer.isLetter, Bool.or_eq_true, Bool.and_eq_true, decide_eq_true_eq, Char.le_def,
    UInt32.le_iff_toNat_le]
  exact or_comm

theorem isDigit_eq : Number.isDigit = Char.isDigit := by
  funext character
  rw [Bool.eq_iff_iff, Char.isDigit_iff_toNat]
  simp only [Number.isDigit, Bool.and_eq_true, decide_eq_true_eq, Char.le_def,
    UInt32.le_iff_toNat_le]
  exact Iff.rfl

private theorem isDigit_eq_false_of_isAlpha {character : Char} (letter : character.isAlpha = true) :
    character.isDigit = false := by
  rw [isAlpha_iff] at letter
  rw [Bool.eq_false_iff, Ne, Char.isDigit_iff_toNat]
  change ¬ (48 ≤ character.toNat ∧ character.toNat ≤ 57)
  omega

@[simp] theorem isSpacing_iff (character : Char) :
    Lexer.isSpacing character = true ↔ character ∈ [' ', '\t', '\r'] := by
  simp [Lexer.isSpacing, or_assoc]

@[simp] theorem isContent_iff (character : Char) :
    Lexer.isContent character = true ↔
      character ∉ ['\r', '\n', '\t', '%', '\\', '"'] := by
  simp only [Lexer.isContent, Lexer.isForbidden, List.mem_cons, List.not_mem_nil, Bool.and_eq_true,
    Bool.not_eq_true', Bool.or_eq_false_iff, decide_eq_true_eq, decide_eq_false_iff_not]
  grind

@[simp] theorem ends_cons {isMember : Char → Bool} {first : Char} {rest : List Char} :
    Ends isMember (first :: rest) ↔ isMember first = false := by
  constructor
  · intro ends
    exact ends first rfl
  · intro outside character next
    cases next
    exact outside

section Runs

variable {isMember : Char → Bool} {run rest : List Char}

theorem takeWhile_append_of_ends (inside : ∀ character ∈ run, isMember character = true)
    (ends : Ends isMember rest) : (run ++ rest).takeWhile isMember = run := by
  rw [List.takeWhile_append_of_pos inside]
  cases rest with
  | nil => simp
  | cons first rest =>
    rw [List.takeWhile_cons_of_neg (by simp [ends_cons.mp ends]), List.append_nil]

theorem dropWhile_append_of_ends (inside : ∀ character ∈ run, isMember character = true)
    (ends : Ends isMember rest) : (run ++ rest).dropWhile isMember = rest := by
  rw [List.dropWhile_append_of_pos inside]
  cases rest with
  | nil => rfl
  | cons first rest => rw [List.dropWhile_cons_of_neg (by simp [ends_cons.mp ends])]

theorem ends_dropWhile (isMember : Char → Bool) (text : List Char) :
    Ends isMember (text.dropWhile isMember) := by
  intro character next
  have outside := List.head?_dropWhile_not isMember text
  rw [next] at outside
  simpa using outside

theorem of_mem_takeWhile {text : List Char} {character : Char}
    (member : character ∈ text.takeWhile isMember) : isMember character = true :=
  List.all_eq_true.mp List.all_takeWhile character member

end Runs

theorem Gap.not_newline {gap rest : List Char} (between : Gap gap rest) : '\n' ∉ gap := by
  have notBlank : '\n' ∉ [' ', '\t', '\r'] := by decide
  cases between with
  | blanks blank => exact fun member => notBlank (blank _ member)
  | comment blank inside _ =>
    intro member
    rcases List.mem_append.mp member with member | member
    · exact notBlank (blank _ member)
    · rcases List.mem_cons.mp member with equal | member
      · exact absurd equal (by decide)
      · exact inside member

/-- What the lexer skips is a gap. -/
theorem exists_gap_skipSpacing (text : List Char) :
    ∃ gap, text = gap ++ Lexer.skipSpacing text ∧ Gap gap (Lexer.skipSpacing text) := by
  have blank : ∀ character ∈ text.takeWhile Lexer.isSpacing, character ∈ [' ', '\t', '\r'] :=
    fun character member => (isSpacing_iff character).mp (of_mem_takeWhile member)
  have whole := List.takeWhile_append_dropWhile (p := Lexer.isSpacing) (l := text)
  unfold Lexer.skipSpacing
  split
  · next rest found =>
    let inComment : Char → Bool := fun character => decide (character ≠ '\n')
    refine ⟨text.takeWhile Lexer.isSpacing ++ '#' :: rest.takeWhile inComment, ?_, ?_⟩
    · rw [List.append_assoc, List.cons_append, List.takeWhile_append_dropWhile, ← found, whole]
    · refine .comment blank ?_ ?_
      · intro member
        have inside := of_mem_takeWhile member
        simp [inComment] at inside
      · have ends := ends_dropWhile inComment rest
        cases remaining : rest.dropWhile inComment with
        | nil => exact .inr rfl
        | cons first tail =>
          rw [remaining, ends_cons] at ends
          exact .inl (by simpa [inComment] using ends)
  · exact ⟨text.takeWhile Lexer.isSpacing, whole.symm, .blanks blank⟩

/-- The lexer skips a gap in front of anything that could not be a part of it. -/
theorem Gap.skipSpacing_append {gap rest : List Char} (between : Gap gap rest)
    (outside : ∀ character, rest.head? = some character →
      character ∉ [' ', '\t', '\r', '#']) :
    Lexer.skipSpacing (gap ++ rest) = rest := by
  have ends : Ends Lexer.isSpacing rest := by
    intro character next
    rw [Bool.eq_false_iff, Ne, isSpacing_iff]
    exact fun blank => outside character next (List.mem_append_left ['#'] blank)
  cases between with
  | blanks blank =>
    have skipped := dropWhile_append_of_ends
      (fun character member => (isSpacing_iff character).mpr (blank character member)) ends
    rw [Lexer.skipSpacing, skipped]
    split
    · exact absurd (by decide) (outside '#' rfl)
    · rfl
  | @comment blanks comment rest blank inside boundary =>
    have hash : Ends Lexer.isSpacing ('#' :: (comment ++ rest)) := ends_cons.mpr (by decide)
    have skipped := dropWhile_append_of_ends
      (fun character member => (isSpacing_iff character).mpr (blank character member)) hash
    rw [List.append_assoc, List.cons_append, Lexer.skipSpacing, skipped]
    refine dropWhile_append_of_ends ?_ ?_
    · intro character member
      exact decide_eq_true fun equal => inside (equal ▸ member)
    · intro character next
      rcases boundary with boundary | rfl
      · rw [boundary] at next
        cases next
        rfl
      · cases next

/-- A run of letters is the lexeme of a word: reserved if it is spelled as one, else a name. -/
theorem written_wordLexeme {letters : List Char} (nonempty : letters ≠ [])
    (inside : ∀ character ∈ letters, character.isAlpha = true) :
    Written (Lexer.wordLexeme (String.ofList letters)) (String.ofList letters) letters := by
  unfold Lexer.wordLexeme
  cases found : Keyword.ofText? (String.ofList letters) with
  | some word =>
    have spelled := Keyword.text_of_ofText? found
    have word_written := Written.keyword word
    rw [spelled, String.toList_ofList] at word_written
    exact word_written
  | none =>
    refine .identifier nonempty inside fun word spelled => ?_
    rw [← spelled, Keyword.ofText?_text] at found
    cases found

private theorem maximal_wordLexeme {word : String} {raw rest : List Char} :
    Maximal (Lexer.wordLexeme word) raw rest ↔ Ends Char.isAlpha rest := by
  unfold Lexer.wordLexeme
  split <;> exact Iff.rfl

private theorem wordLexeme_text (word : Keyword) : Lexer.wordLexeme word.text = .keyword word := by
  rw [Lexer.wordLexeme, Keyword.ofText?_text]

private theorem wordLexeme_of_forall_ne {name : String}
    (free : ∀ word : Keyword, word.text ≠ name) :
    Lexer.wordLexeme name = .identifier name := by
  unfold Lexer.wordLexeme
  cases found : Keyword.ofText? name with
  | some word => exact absurd (Keyword.text_of_ofText? found) (free word)
  | none => rfl

@[simp] theorem tokenAt_of_isDigit {first : Char} (digit : first.isDigit = true)
    (rest : List Char) :
    Lexer.tokenAt first rest = Lexer.numberAt (first :: rest) := by
  unfold Lexer.tokenAt
  split
  all_goals try exact absurd digit (by decide)
  rw [isDigit_eq, if_pos digit]

@[simp] theorem tokenAt_of_isAlpha {first : Char} (letter : first.isAlpha = true)
    (rest : List Char) :
    Lexer.tokenAt first rest = Lexer.wordAt (first :: rest) := by
  unfold Lexer.tokenAt
  split
  all_goals try exact absurd letter (by decide)
  rw [isDigit_eq, isDigit_eq_false_of_isAlpha letter, isLetter_eq, if_pos letter]
  rfl

/-- The given characters begin with a lexeme that ends where the rest begins. -/
def Spells (lexeme : Lexeme) (written : String) (text rest : List Char) : Prop :=
  ∃ raw, text = raw ++ rest ∧ Written lexeme written raw ∧ Maximal lexeme raw rest

section Reading

variable {lexeme : Lexeme} {written : String}

private theorem spells_wordAt {first : Char} {rest : List Char} (letter : first.isAlpha = true)
    (read : (Lexer.wordAt (first :: rest)).outcome = .ok (lexeme, written)) :
    Spells lexeme written (first :: rest) (Lexer.wordAt (first :: rest)).rest := by
  simp only [Lexer.wordAt, Lexer.Attempt.read, isLetter_eq] at read ⊢
  cases read
  refine ⟨(first :: rest).takeWhile Char.isAlpha, List.takeWhile_append_dropWhile.symm, ?_, ?_⟩
  · refine written_wordLexeme ?_ fun _ => of_mem_takeWhile
    rw [List.takeWhile_cons_of_pos letter]
    exact List.cons_ne_nil _ _
  · exact maximal_wordLexeme.mpr (ends_dropWhile _ _)

theorem wordAt_append {letters rest : List Char}
    (inside : ∀ character ∈ letters, character.isAlpha = true) (ends : Ends Char.isAlpha rest) :
    Lexer.wordAt (letters ++ rest) =
      .read (Lexer.wordLexeme (String.ofList letters)) (String.ofList letters) rest := by
  rw [Lexer.wordAt, isLetter_eq, takeWhile_append_of_ends inside ends,
    dropWhile_append_of_ends inside ends]

private theorem spells_numberAt {first : Char} {rest : List Char} (digit : first.isDigit = true)
    (read : (Lexer.numberAt (first :: rest)).outcome = .ok (lexeme, written)) :
    Spells lexeme written (first :: rest) (Lexer.numberAt (first :: rest)).rest := by
  have nonempty : (first :: rest).takeWhile Char.isDigit ≠ [] := by
    rw [List.takeWhile_cons_of_pos digit]
    exact List.cons_ne_nil _ _
  have whole := List.takeWhile_append_dropWhile (p := Char.isDigit) (l := first :: rest)
  revert read
  simp only [Lexer.numberAt, isDigit_eq]
  split
  · next tail found =>
    rw [found] at whole
    have fraction := List.takeWhile_append_dropWhile (p := Char.isDigit) (l := tail)
    split
    · intro read
      cases read
    · next present =>
      intro read
      cases read
      change Spells _ _ _ (tail.dropWhile Char.isDigit)
      refine ⟨_, ?_, .fraction nonempty (fun _ => of_mem_takeWhile) ?_
        (fun _ => of_mem_takeWhile), ends_dropWhile _ _, ?_⟩
      · rw [List.append_assoc, List.cons_append, fraction, whole]
      · simpa using present
      · intro noPoint
        exact absurd (List.mem_append_right _ List.mem_cons_self) noPoint
  · next noPoint =>
    intro read
    cases read
    refine ⟨_, whole.symm, .whole nonempty (fun _ => of_mem_takeWhile), ends_dropWhile _ _, ?_⟩
    intro _ point
    obtain ⟨tail, found⟩ := List.head?_eq_some_iff.mp point
    exact noPoint tail found

private theorem numberAt_whole_append {digits rest : List Char}
    (inside : ∀ character ∈ digits, character.isDigit = true) (ends : Ends Char.isDigit rest)
    (noPoint : rest.head? ≠ some '.') :
    Lexer.numberAt (digits ++ rest) =
      .read (.number (Lexer.numberValue digits [])) (String.ofList digits) rest := by
  simp only [Lexer.numberAt, isDigit_eq, takeWhile_append_of_ends inside ends,
    dropWhile_append_of_ends inside ends]
  split
  · exact absurd rfl noPoint
  · rfl

private theorem numberAt_fraction_append {digits decimals rest : List Char}
    (inside : ∀ character ∈ digits, character.isDigit = true) (nonempty : decimals ≠ [])
    (decimal : ∀ character ∈ decimals, character.isDigit = true) (ends : Ends Char.isDigit rest) :
    Lexer.numberAt (digits ++ '.' :: (decimals ++ rest)) =
      .read (.number (Lexer.numberValue digits decimals))
        (String.ofList (digits ++ '.' :: decimals)) rest := by
  have point : Ends Char.isDigit ('.' :: (decimals ++ rest)) := ends_cons.mpr (by decide)
  simp only [Lexer.numberAt, isDigit_eq, takeWhile_append_of_ends inside point,
    dropWhile_append_of_ends inside point, takeWhile_append_of_ends decimal ends,
    dropWhile_append_of_ends decimal ends]
  rw [if_neg (by simpa using nonempty)]

private theorem spells_stringAfter {text : List Char}
    (read : (Lexer.stringAfter text).outcome = .ok (lexeme, written)) :
    Spells lexeme written ('"' :: text) (Lexer.stringAfter text).rest := by
  have whole := List.takeWhile_append_dropWhile (p := Lexer.isContent) (l := text)
  revert read
  simp only [Lexer.stringAfter]
  split
  · intro read
    cases read
  · next character rest found =>
    rw [found] at whole
    split
    · next quote =>
      intro read
      cases read
      refine ⟨'"' :: text.takeWhile Lexer.isContent ++ ['"'], ?_, .string ?_, trivial⟩
      · rw [← quote, List.append_assoc, List.cons_append, List.cons_append, List.nil_append]
        exact congrArg (character :: ·) whole.symm
      · intro character member
        exact (isContent_iff character).mp (of_mem_takeWhile member)
    · intro read
      cases read

theorem stringAfter_append {content rest : List Char}
    (inside : ∀ character ∈ content, character ∉ ['\r', '\n', '\t', '%', '\\', '"']) :
    Lexer.stringAfter (content ++ '"' :: rest) =
      .read (.string (String.ofList content)) (String.ofList content) rest := by
  have quote : Ends Lexer.isContent ('"' :: rest) := ends_cons.mpr (by decide)
  have kept : ∀ character ∈ content, Lexer.isContent character = true :=
    fun character member => (isContent_iff character).mpr (inside character member)
  simp only [Lexer.stringAfter, takeWhile_append_of_ends kept quote,
    dropWhile_append_of_ends kept quote, if_true]

theorem operatorBefore_cases (alone joined : Lexeme) (sign : String) (rest : List Char) :
    (∃ tail, rest = '=' :: tail ∧
      Lexer.operatorBefore alone joined sign rest = .read joined (sign ++ "=") tail) ∨
    (rest.head? ≠ some '=' ∧
      Lexer.operatorBefore alone joined sign rest = .read alone sign rest) := by
  unfold Lexer.operatorBefore
  split
  · next tail => exact .inl ⟨tail, rfl, rfl⟩
  · next noEqual =>
    refine .inr ⟨fun next => ?_, rfl⟩
    obtain ⟨tail, found⟩ := List.head?_eq_some_iff.mp next
    exact noEqual tail found

theorem spells_operatorBefore (alone joined : Lexeme) (sign : Char) {rest : List Char}
    (single : Written alone (String.singleton sign) [sign])
    (double : Written joined (String.singleton sign ++ "=") [sign, '='])
    (maximal : rest.head? ≠ some '=' → Maximal alone [sign] rest)
    (always : ∀ rest, Maximal joined [sign, '='] rest)
    (read : (Lexer.operatorBefore alone joined (String.singleton sign) rest).outcome =
      .ok (lexeme, written)) :
    Spells lexeme written (sign :: rest)
      (Lexer.operatorBefore alone joined (String.singleton sign) rest).rest := by
  rcases operatorBefore_cases alone joined (String.singleton sign) rest with
    ⟨tail, rfl, equal⟩ | ⟨ends, equal⟩
  · rw [equal] at read ⊢
    cases read
    exact ⟨[sign, '='], rfl, double, always tail⟩
  · rw [equal] at read ⊢
    cases read
    exact ⟨[sign], rfl, single, maximal ends⟩

/-- What the lexer reads after a character is a maximal lexeme. -/
theorem spells_tokenAt {first : Char} {rest : List Char}
    (read : (Lexer.tokenAt first rest).outcome = .ok (lexeme, written)) :
    Spells lexeme written (first :: rest) (Lexer.tokenAt first rest).rest := by
  have single (operator : Arithmetic) (sign : Char) (spelled : operator.text.toList = [sign])
      (read : (Lexer.Attempt.read (.arithmetic operator) operator.text rest).outcome =
        .ok (lexeme, written)) : Spells lexeme written (sign :: rest) rest := by
    cases read
    exact ⟨[sign], rfl, spelled ▸ .arithmetic operator, trivial⟩
  revert read
  unfold Lexer.tokenAt
  split
  · exact single .plus '+' (by decide)
  · exact single .minus '-' (by decide)
  · exact single .times '*' (by decide)
  · exact single .divide '/' (by decide)
  · exact spells_operatorBefore .assign (.relation .equal) '=' .assign (.relation .equal) id
      fun _ => trivial
  · exact spells_operatorBefore (.relation .less) (.relation .lessEqual) '<' (.relation .less)
      (.relation .lessEqual) id fun _ => trivial
  · exact spells_operatorBefore (.relation .greater) (.relation .greaterEqual) '>'
      (.relation .greater) (.relation .greaterEqual) id fun _ => trivial
  · intro read
    split at read
    · next tail =>
      cases read
      exact ⟨['!', '='], rfl, .relation .unequal, trivial⟩
    · cases read
  · exact spells_stringAfter
  · split
    · next digit => exact spells_numberAt (isDigit_eq ▸ digit)
    · split
      · next letter => exact spells_wordAt (isLetter_eq ▸ letter)
      · intro read
        cases read

theorem operatorBefore_of_head?_ne {rest : List Char} (alone joined : Lexeme) (sign : String)
    (ends : rest.head? ≠ some '=') :
    Lexer.operatorBefore alone joined sign rest = .read alone sign rest := by
  rcases operatorBefore_cases alone joined sign rest with ⟨tail, rfl, -⟩ | ⟨-, equal⟩
  · exact absurd rfl ends
  · exact equal

/-- The lexer reads the lexeme with which a text begins, if it is not a line feed. -/
theorem Written.tokenAt_eq {raw rest tail : List Char} {first : Char}
    (spelled : Written lexeme written raw) (maximal : Maximal lexeme raw rest)
    (inside : lexeme ≠ .newline) (whole : raw ++ rest = first :: tail) :
    Lexer.tokenAt first tail = .read lexeme written rest := by
  -- The first character of a nonempty run decides how the lexer goes on.
  have first_mem {run : List Char} (nonempty : run ≠ []) {rest : List Char}
      (whole : run ++ rest = first :: tail) : first ∈ run := by
    cases run with
    | nil => exact absurd rfl nonempty
    | cons head run => exact List.cons.inj whole |>.1 ▸ List.mem_cons_self
  cases spelled with
  | newline => exact absurd rfl inside
  | assign =>
    cases whole
    exact operatorBefore_of_head?_ne _ _ _ maximal
  | arithmetic operator => cases operator <;> cases whole <;> rfl
  | relation operator =>
    cases operator <;> cases whole
    case less.refl => exact operatorBefore_of_head?_ne _ _ _ maximal
    case greater.refl => exact operatorBefore_of_head?_ne _ _ _ maximal
    all_goals rfl
  | keyword word =>
    have letters := word.isAlpha_of_mem_text
    have letter := letters first (first_mem word.text_toList_ne_nil whole)
    have read := wordAt_append letters maximal
    rw [String.ofList_toList, wordLexeme_text] at read
    rw [tokenAt_of_isAlpha letter, ← whole, read]
  | identifier nonempty letters free =>
    have letter := letters first (first_mem nonempty whole)
    rw [tokenAt_of_isAlpha letter, ← whole, wordAt_append letters maximal,
      wordLexeme_of_forall_ne free]
  | whole nonempty digits =>
    have digit := digits first (first_mem nonempty whole)
    have noPoint : '.' ∉ raw := fun point => absurd (digits _ point) (by decide)
    rw [tokenAt_of_isDigit digit, ← whole,
      numberAt_whole_append digits maximal.1 (maximal.2 noPoint)]
  | fraction nonempty digits present decimals =>
    rw [List.append_assoc] at whole
    have digit := digits first (first_mem nonempty whole)
    rw [tokenAt_of_isDigit digit, ← whole]
    exact numberAt_fraction_append digits present decimals maximal.1
  | string allowed =>
    rw [List.cons_append, List.cons_append, List.append_assoc] at whole
    cases whole
    exact stringAfter_append allowed

theorem exists_head_of_run {run rest : List Char} (nonempty : run ≠ [])
    (inside : ∀ character ∈ run, character.isAlphanum = true) :
    ∃ first tail, run ++ rest = first :: tail ∧ first ∉ [' ', '\t', '\r', '#'] := by
  cases run with
  | nil => exact absurd rfl nonempty
  | cons first run =>
    refine ⟨first, run ++ rest, rfl, fun blank => ?_⟩
    have alphanum := inside first List.mem_cons_self
    simp only [List.mem_cons, List.not_mem_nil, or_false] at blank
    rcases blank with rfl | rfl | rfl | rfl <;> cases alphanum

/-- No lexeme begins as a gap does, and none is without characters. -/
theorem Written.exists_head {raw : List Char} (spelled : Written lexeme written raw) :
    ∃ first tail, raw = first :: tail ∧ first ∉ [' ', '\t', '\r', '#'] := by
  have alphanum_of_isAlpha {character : Char} (letter : character.isAlpha = true) :
      character.isAlphanum = true := by
    rw [Char.isAlphanum, letter, Bool.true_or]
  have alphanum_of_isDigit {character : Char} (digit : character.isDigit = true) :
      character.isAlphanum = true := by
    rw [Char.isAlphanum, digit, Bool.or_true]
  rw [← List.append_nil raw]
  cases spelled with
  | newline => exact ⟨'\n', [], rfl, by decide⟩
  | assign => exact ⟨'=', [], rfl, by decide⟩
  | arithmetic operator => cases operator <;> exact ⟨_, _, rfl, by decide⟩
  | relation operator => cases operator <;> exact ⟨_, _, rfl, by decide⟩
  | keyword word =>
    exact exists_head_of_run word.text_toList_ne_nil
      fun _ member => alphanum_of_isAlpha (word.isAlpha_of_mem_text _ member)
  | identifier nonempty letters _ =>
    exact exists_head_of_run nonempty fun _ member => alphanum_of_isAlpha (letters _ member)
  | whole nonempty digits =>
    exact exists_head_of_run nonempty fun _ member => alphanum_of_isDigit (digits _ member)
  | fraction nonempty digits _ _ =>
    rw [List.append_assoc]
    exact exists_head_of_run nonempty fun _ member => alphanum_of_isDigit (digits _ member)
  | string _ => exact ⟨'"', _, rfl, by decide⟩

theorem Written.kind_ne_eof {raw : List Char} (spelled : Written lexeme written raw) :
    lexeme.kind ≠ .eof := by
  cases spelled <;> exact nofun

/-- Only the end of a line is written with a line feed. -/
theorem Written.not_newline {raw : List Char} (spelled : Written lexeme written raw)
    (inside : lexeme ≠ .newline) : '\n' ∉ raw := by
  have not_letter : ¬ '\n'.isAlpha = true := by decide
  have not_digit : ¬ '\n'.isDigit = true := by decide
  cases spelled with
  | newline => exact absurd rfl inside
  | assign => decide
  | arithmetic operator => cases operator <;> decide
  | relation operator => cases operator <;> decide
  | keyword word => exact fun member => not_letter (word.isAlpha_of_mem_text _ member)
  | identifier _ letters _ => exact fun member => not_letter (letters _ member)
  | whole _ digits => exact fun member => not_digit (digits _ member)
  | fraction _ digits _ decimals =>
    intro member
    rcases List.mem_append.mp member with member | member
    · exact not_digit (digits _ member)
    · rcases List.mem_cons.mp member with point | member
      · exact absurd point (by decide)
      · exact not_digit (decimals _ member)
  | string allowed =>
    intro member
    rcases List.mem_append.mp member with member | member
    · rcases List.mem_cons.mp member with quote | member
      · exact absurd quote (by decide)
      · exact allowed _ member (by decide)
    · exact absurd member (by decide)

end Reading

section Steps

variable {lexeme : Lexeme} {written : String} {gap raw rest : List Char} {line : Nat}

/-- The cursor reads the lexeme behind a gap and stops behind it. -/
theorem next_gap_append (between : Gap gap (raw ++ rest)) (spelled : Written lexeme written raw)
    (maximal : Maximal lexeme raw rest) :
    Lexer.Cursor.next ⟨gap ++ (raw ++ rest), line⟩ =
      (.ok ⟨lexeme, written, line⟩, ⟨rest, line + raw.count '\n'⟩) := by
  obtain ⟨first, tail, rfl, outside⟩ := spelled.exists_head
  have skipped := between.skipSpacing_append fun character next => Option.some.inj next ▸ outside
  by_cases newline : lexeme = .newline
  · subst newline
    cases spelled
    simp only [Lexer.Cursor.next, skipped]
    rfl
  · have noFeed := spelled.not_newline newline
    simp only [Lexer.Cursor.next, skipped]
    split
    · next nothing => cases nothing
    · next feed =>
      cases feed
      exact absurd List.mem_cons_self noFeed
    · next found =>
      rw [spelled.tokenAt_eq maximal newline found, List.count_eq_zero_of_not_mem noFeed]
      rfl

theorem next_gap (line : Nat) (between : Gap gap []) :
    Lexer.Cursor.next ⟨gap, line⟩ = (.ok (Token.eofAt line), ⟨[], line⟩) := by
  have skipped := between.skipSpacing_append nofun
  rw [List.append_nil] at skipped
  simp only [Lexer.Cursor.next, skipped]

/-- What a cursor reads is the end, or a maximal lexeme behind a gap. -/
theorem next_cases {cursor after : Lexer.Cursor} {token : Token}
    (read : cursor.next = (.ok token, after)) :
    (token = Token.eofAt cursor.line ∧ Gap cursor.rest []) ∨
    ∃ gap raw, cursor.rest = gap ++ (raw ++ after.rest) ∧ Gap gap (raw ++ after.rest) ∧
      Written token.lexeme token.text raw ∧ Maximal token.lexeme raw after.rest ∧
      token.line = cursor.line ∧ after.line = cursor.line + raw.count '\n' := by
  obtain ⟨gap, whole, between⟩ := exists_gap_skipSpacing cursor.rest
  unfold Lexer.Cursor.next at read
  split at read
  · next nothing =>
    cases read
    rw [nothing, List.append_nil] at whole
    rw [nothing, ← whole] at between
    exact .inl ⟨rfl, between⟩
  · next rest feed =>
    cases read
    rw [feed] at whole between
    exact .inr ⟨gap, ['\n'], whole, between, .newline, trivial, rfl, rfl⟩
  · next first rest notFeed found =>
    rw [found] at whole between
    simp only at read
    split at read
    · next lexeme written outcome =>
      cases read
      obtain ⟨raw, splits, spelled, maximal⟩ := spells_tokenAt outcome
      rw [splits] at whole between
      refine .inr ⟨gap, raw, whole, between, spelled, maximal, rfl, ?_⟩
      have noFeed : '\n' ∉ raw := by
        refine spelled.not_newline ?_
        rintro rfl
        cases spelled
        exact notFeed (List.cons.inj splits).1
      exact congrArg (cursor.line + ·) (List.count_eq_zero_of_not_mem noFeed).symm
    · cases read

end Steps

section Cuts

variable {line : Nat} {pieces : List Piece} {last : List Char}

private theorem cut_nil {text : List Char} (between : Gap text []) : Cut line text [] text where
  text_eq := rfl
  gap before piece after equal := by simp at equal
  written piece member := by cases member
  maximal before piece after equal := by simp at equal
  line_eq before piece after equal := by simp at equal
  last_gap := between

theorem count_text_append {piece : Piece} {rest : List Char} (between : Gap piece.gap rest)
    (text : List Char) :
    (piece.text ++ text).count '\n' = piece.raw.count '\n' + text.count '\n' := by
  rw [Piece.text, List.count_append, List.count_append,
    List.count_eq_zero_of_not_mem between.not_newline, Nat.zero_add]

/-- A piece in front of a text that is cut. -/
theorem Cut.cons {piece : Piece} {rest : List Char}
    (cut : Cut (line + piece.raw.count '\n') rest pieces last)
    (between : Gap piece.gap (piece.raw ++ rest))
    (spelled : Written piece.token.lexeme piece.token.text piece.raw)
    (maximal : Maximal piece.token.lexeme piece.raw rest) (same : piece.token.line = line) :
    Cut line (piece.gap ++ (piece.raw ++ rest)) (piece :: pieces) last where
  text_eq := by
    rw [List.flatMap_cons, Piece.text, List.append_assoc, List.append_assoc, ← cut.text_eq]
  gap before other after equal := by
    rcases List.cons_eq_append_iff.mp equal with ⟨rfl, front⟩ | ⟨before, rfl, front⟩
    · cases front
      rwa [← cut.text_eq]
    · exact cut.gap before other after front
  written other member := by
    rcases List.mem_cons.mp member with rfl | member
    · exact spelled
    · exact cut.written other member
  maximal before other after equal := by
    rcases List.cons_eq_append_iff.mp equal with ⟨rfl, front⟩ | ⟨before, rfl, front⟩
    · cases front
      rwa [← cut.text_eq]
    · exact cut.maximal before other after front
  line_eq before other after equal := by
    rcases List.cons_eq_append_iff.mp equal with ⟨rfl, front⟩ | ⟨before, rfl, front⟩
    · cases front
      rw [List.flatMap_nil, List.nil_append, List.count_eq_zero_of_not_mem between.not_newline]
      exact same
    · rw [cut.line_eq before other after front, List.flatMap_cons, List.append_assoc,
        count_text_append between, Nat.add_assoc]
  last_gap := cut.last_gap

/-- The text behind the first piece is cut too. -/
theorem Cut.tail {text : List Char} {piece : Piece} (cut : Cut line text (piece :: pieces) last) :
    Cut (line + piece.raw.count '\n') (pieces.flatMap Piece.text ++ last) pieces last where
  text_eq := rfl
  gap before other after equal := cut.gap (piece :: before) other after (congrArg _ equal)
  written other member := cut.written other (List.mem_cons_of_mem _ member)
  maximal before other after equal := cut.maximal (piece :: before) other after (congrArg _ equal)
  line_eq before other after equal := by
    have first := cut.gap [] piece pieces rfl
    rw [cut.line_eq (piece :: before) other after (congrArg _ equal), List.flatMap_cons,
      List.append_assoc, count_text_append first, Nat.add_assoc]
  last_gap := cut.last_gap

/-- The lexer finds the pieces into which a text is cut. -/
theorem Cut.scan {text : List Char} (cut : Cut line text pieces last) :
    (Lexer.scan ⟨text, line⟩).tokens = pieces.map Piece.token ∧
      (Lexer.scan ⟨text, line⟩).ending = .eof (line + text.count '\n' : Nat) := by
  induction pieces generalizing line text with
  | nil =>
    obtain rfl : text = last := cut.text_eq
    have read := next_gap line cut.last_gap
    rw [Lexer.scan_of_next_eof read rfl, List.count_eq_zero_of_not_mem cut.last_gap.not_newline]
    exact ⟨rfl, rfl⟩
  | cons piece pieces induction =>
    have spelled := cut.written piece List.mem_cons_self
    have between := cut.gap [] piece pieces rfl
    have read : Lexer.Cursor.next ⟨text, line⟩ =
        (.ok piece.token,
          ⟨pieces.flatMap Piece.text ++ last, line + piece.raw.count '\n'⟩) := by
      have same : piece.token.line = line := by
        rw [cut.line_eq [] piece pieces rfl, List.flatMap_nil, List.nil_append,
          List.count_eq_zero_of_not_mem between.not_newline, Nat.add_zero]
      rw [cut.text_eq, List.flatMap_cons, Piece.text, List.append_assoc, List.append_assoc,
        next_gap_append between spelled (cut.maximal [] piece pieces rfl), ← same]
    obtain ⟨tokens, ending⟩ := induction cut.tail
    rw [Lexer.scan_of_next read spelled.kind_ne_eof, tokens, ending, cut.text_eq,
      List.flatMap_cons, List.append_assoc, count_text_append between, Nat.add_assoc]
    exact ⟨rfl, rfl⟩

/-- A text that the lexer reads to its end can be cut into its tokens. -/
theorem exists_cut_of_scan (cursor : Lexer.Cursor) {bottom : Int}
    (ends : (Lexer.scan cursor).ending = .eof bottom) :
    ∃ pieces last, Cut cursor.line cursor.rest pieces last ∧
      (Lexer.scan cursor).tokens = pieces.map Piece.token := by
  fun_induction Lexer.scan cursor with
  | case1 => cases ends
  | case2 cursor token after read ended =>
    rcases next_cases read with ⟨-, between⟩ | ⟨gap, raw, -, -, spelled, -⟩
    · exact ⟨[], _, cut_nil between, rfl⟩
    · exact absurd ended spelled.kind_ne_eof
  | case3 cursor token after read inside following induction =>
    rcases next_cases read with ⟨rfl, -⟩ | ⟨gap, raw, whole, between, spelled, maximal, same, moved⟩
    · exact absurd rfl inside
    · obtain ⟨pieces, last, cut, tokens⟩ := induction ends
      rw [moved] at cut
      have longer : Cut cursor.line _ (⟨gap, raw, token⟩ :: pieces) last :=
        cut.cons between spelled maximal same
      rw [← whole] at longer
      exact ⟨⟨gap, raw, token⟩ :: pieces, last, longer, congrArg (token :: ·) tokens⟩

end Cuts

end Lexical

/-- A text has the given tokens exactly if it can be cut into gaps and their maximal lexemes; the
end token stands on the line behind the last line feed. -/
theorem Lexer.tokens_eq_ok_iff (source : String) (tokens : List Token) :
    Lexer.tokens source = .ok tokens ↔
      ∃ pieces last, Lexical.Cut 1 (source.toList ++ ['\n']) pieces last ∧
        tokens = pieces.map Lexical.Piece.token ++
          [Token.eofAt (1 + (source.toList ++ ['\n']).count '\n' : Nat)] := by
  constructor
  · intro tokenized
    unfold Lexer.tokens Scan.complete at tokenized
    split at tokenized
    · next bottom ends =>
      cases tokenized
      obtain ⟨pieces, last, cut, found⟩ := Lexical.exists_cut_of_scan _ ends
      have counted := ends.symm.trans cut.scan.2
      cases counted
      exact ⟨pieces, last, cut, congrArg (· ++ _) found⟩
    · cases tokenized
  · rintro ⟨pieces, last, cut, rfl⟩
    obtain ⟨scanned, ends⟩ := cut.scan
    rw [Lexer.tokens, Scan.complete, Cursor.start, ends, scanned]

end TeenyBasic
