import TeenyBasic.Proofs.CParts
import TeenyBasic.Proofs.LinesOfText

/-!
# Constants and names in C

The numbers in the C text of a program are the number tokens of its source, in their order, and the
names in it are the identifiers.  Each of them is read as a word of C.  It is the right word unless
a number is too large for a double or a name means something in C (`CProgram.IsRead.isLegal_iff`).
-/

namespace TeenyBasic

namespace Token

def number? (token : Token) : Option Float :=
  match token.lexeme with
  | .number value => some value
  | _ => none

def name? (token : Token) : Option String :=
  match token.lexeme with
  | .identifier name => some name
  | _ => none

end Token

private theorem Naming.map_name_ofTokens (tokens : List Token) :
    (ofTokens tokens).map name = tokens.filterMap Token.name? := by
  fun_induction ofTokens tokens with
  | case1 word text line name text' line' rest induction =>
    have name_eq : (word.naming name).name = name := by cases word <;> rfl
    simp [List.filterMap_cons, Token.name?, name_eq, induction]
  | case2 name text line rest induction =>
    simp [Token.name?, Naming.name, induction]
  | case3 token rest notPair notName induction =>
    rw [induction, List.filterMap_cons_none]
    unfold Token.name?
    split
    · next lexeme_eq =>
      obtain ⟨lexeme, text, line⟩ := token
      obtain rfl : lexeme = _ := lexeme_eq
      exact absurd rfl (notName _ _ _)
    · rfl
  | case4 => rfl

namespace Grammar

variable {tokens rest : List Token}

theorem Newline.numbers_eq (ends : Newline tokens rest) :
    tokens.filterMap Token.number? = rest.filterMap Token.number? := by
  induction ends with
  | one => rfl
  | more _ induction => exact induction

theorem Primary.numbers_eq {tree : Expression} (derived : Primary tokens tree rest) :
    tokens.filterMap Token.number? =
      tree.parts.filterMap CPart.number? ++ rest.filterMap Token.number? := by
  cases derived <;> rfl

theorem Unary.numbers_eq {tree : Expression} (derived : Unary tokens tree rest) :
    tokens.filterMap Token.number? =
      tree.parts.filterMap CPart.number? ++ rest.filterMap Token.number? := by
  cases derived with
  | unsigned derived | positive derived | negative derived => exact derived.numbers_eq

theorem Term.numbers_eq {tree : Expression} (derived : Term tokens tree rest) :
    tokens.filterMap Token.number? =
      tree.parts.filterMap CPart.number? ++ rest.filterMap Token.number? := by
  induction derived with
  | first derived => exact derived.numbers_eq
  | further _ _ derived induction =>
    rw [induction, List.filterMap_cons_none rfl, derived.numbers_eq, Expression.parts,
      List.filterMap_append, List.filterMap_cons_none rfl, List.append_assoc]

theorem Sum.numbers_eq {tree : Expression} (derived : Sum tokens tree rest) :
    tokens.filterMap Token.number? =
      tree.parts.filterMap CPart.number? ++ rest.filterMap Token.number? := by
  induction derived with
  | first derived => exact derived.numbers_eq
  | further _ _ derived induction =>
    rw [induction, List.filterMap_cons_none rfl, derived.numbers_eq, Expression.parts,
      List.filterMap_append, List.filterMap_cons_none rfl, List.append_assoc]

theorem Comparison.numbers_eq {tree : Condition} (derived : Comparison tokens tree rest) :
    tokens.filterMap Token.number? =
      tree.parts.filterMap CPart.number? ++ rest.filterMap Token.number? := by
  induction derived with
  | first left right =>
    rw [left.numbers_eq, List.filterMap_cons_none rfl, right.numbers_eq, Condition.parts,
      List.filterMap_append, List.filterMap_cons_none rfl, List.append_assoc]
  | further _ right induction =>
    rw [induction, List.filterMap_cons_none rfl, right.numbers_eq, Condition.parts,
      List.filterMap_append, List.filterMap_cons_none rfl, List.append_assoc]

variable (precision : Int)

theorem Line.numbers_eq {statement : Statement} (derived : Line tokens statement rest) :
    tokens.filterMap Token.number? =
      (CText.partsOf precision statement.lines).filterMap CPart.number? ++
        rest.filterMap Token.number? := by
  cases derived with
  | printText | label | goto | input => rfl
  | printValue derived =>
    rw [List.filterMap_cons_none rfl, derived.numbers_eq]
    simp [CText.partsOf, Statement.lines, Action.lines, CLine.parts, List.filterMap_cons,
      CPart.number?]
  | assign derived =>
    rw [List.filterMap_cons_none rfl, List.filterMap_cons_none rfl, List.filterMap_cons_none rfl,
      derived.numbers_eq]
    simp [CText.partsOf, Statement.lines, Action.lines, CLine.parts, List.filterMap_cons,
      CPart.number?]

theorem Statements.numbers_eq {statements : List Statement}
    (derived : Statements tokens statements rest) :
    tokens.filterMap Token.number? =
      (CText.partsOf precision (Statement.linesOf statements)).filterMap CPart.number? ++
        rest.filterMap Token.number? := by
  induction derived with
  | none => rfl
  | line first ends _ induction =>
    rw [first.numbers_eq precision, ends.numbers_eq, induction, Statement.linesOf,
      CText.partsOf_append, List.filterMap_append, List.append_assoc]
  | block condition ends _ ends' _ bodyInduction induction =>
    rw [List.filterMap_cons_none rfl, condition.numbers_eq, List.filterMap_cons_none rfl,
      ends.numbers_eq, bodyInduction, List.filterMap_cons_none rfl, ends'.numbers_eq, induction]
    simp [Statement.linesOf, Statement.lines, CText.partsOf, CLine.parts, List.filterMap_cons,
      CPart.number?]

theorem Program.numbers_eq {tree : List Statement} (derived : Program tokens tree) :
    tokens.filterMap Token.number? =
      (CText.partsOf precision (Statement.linesOf tree)).filterMap CPart.number? := by
  induction derived with
  | statements derived =>
    rw [derived.numbers_eq precision]
    exact List.append_nil _
  | newline _ induction => exact induction

end Grammar

namespace CText

variable (precision : Int) (tree : List Statement)

/-- Declarations and the lines around the statements hold no numbers. -/
theorem filterMap_number?_partsOfTree :
    (partsOfTree precision tree).filterMap CPart.number? =
      (partsOf precision (Statement.linesOf tree)).filterMap CPart.number? := by
  have declarations (names : List String) :
      (partsOf precision (names.map .declaration)).filterMap CPart.number? = [] := by
    rw [List.filterMap_eq_nil_iff]
    intro part member
    obtain ⟨row, inRows, inRow | rfl⟩ := mem_partsOf_iff.mp member
    · obtain ⟨name, -, rfl⟩ := List.mem_map.mp inRows
      simp only [CLine.parts, List.mem_cons, List.not_mem_nil, or_false] at inRow
      rcases inRow with rfl | rfl | rfl <;> rfl
    · rfl
  have first : (partsOf precision [.includes, .main]).filterMap CPart.number? = [] := rfl
  have last : (partsOf precision [.returnZero]).filterMap CPart.number? = [] := rfl
  have closed : (partsOf precision [.closing]).filterMap CPart.number? = [] := rfl
  rw [partsOfTree, linesOf_eq_inside, inside]
  simp only [partsOf_append, List.filterMap_append, declarations, first, last, closed,
    List.nil_append, List.append_nil]

end CText

namespace Statement

mutual

/-- Every name of a statement stands in one of its lines. -/
theorem exists_line_of_mem_namings {naming : Naming} (statement : Statement)
    (named : naming ∈ statement.namings) : ∃ row ∈ statement.lines, naming ∈ row.namings := by
  cases statement with
  | action simple =>
    cases simple with
    | printText content => cases named
    | printValue value | assign name value | input name => exact ⟨_, List.mem_cons_self, named⟩
  | label name line | goto name line => exact ⟨_, List.mem_cons_self, named⟩
  | block kind condition body =>
    rcases List.mem_append.mp named with inCondition | inBody
    · exact ⟨_, List.mem_cons_self, inCondition⟩
    · obtain ⟨row, member, found⟩ := exists_line_of_mem_namingsOf body inBody
      exact ⟨row, List.mem_cons_of_mem _ (List.mem_append_left _ member), found⟩

theorem exists_line_of_mem_namingsOf {naming : Naming} (statements : List Statement)
    (named : naming ∈ namingsOf statements) : ∃ row ∈ linesOf statements, naming ∈ row.namings := by
  cases statements with
  | nil => cases named
  | cons statement rest =>
    rcases List.mem_append.mp named with here | later
    · obtain ⟨row, member, found⟩ := exists_line_of_mem_namings statement here
      exact ⟨row, List.mem_append_left _ member, found⟩
    · obtain ⟨row, member, found⟩ := exists_line_of_mem_namingsOf rest later
      exact ⟨row, List.mem_append_right _ member, found⟩

end

end Statement

private theorem CText.name_mem_partsOfTree_iff {precision : Int} {tree : List Statement}
    {naming : Naming} :
    .name naming ∈ partsOfTree precision tree ↔ naming ∈ Statement.namingsOf tree := by
  rw [partsOfTree, name_mem_partsOf_iff]
  constructor
  · rintro ⟨row, member, named⟩
    exact mem_namingsOf_of_mem member named
  · intro named
    obtain ⟨row, member, found⟩ := Statement.exists_line_of_mem_namingsOf tree named
    exact ⟨row, List.mem_append_right _ (List.mem_append_left _ member), found⟩

/-- A number is a constant that rounds to it, and a name is free for variables and labels. -/
def CPart.IsLegal : CPart → Prop
  | number value =>
      ∃ shape : Number.Shape, (number value).words = [.constant shape.text] ∧
        ∃ mantissa exponent, Number.parts value = .finite false mantissa exponent ∧
          Number.RoundsTo shape.value mantissa exponent
  | name naming =>
      (name naming).words = [.name naming.name.toList] ∧ CWord.IsFree naming.name
  | _ => True

/-- A number is a finite double, and a name is free for variables and labels. -/
def Token.IsSafe (token : Token) : Prop :=
  match token.lexeme with
  | .number value => value.isFinite = true
  | .identifier name => CWord.IsFree name
  | _ => True

open CWord (Begun)

@[simp] theorem CPart.isLegal_number_iff (decimal : Number.Decimal) :
    (number (decimal.toFloat false)).IsLegal ↔ (decimal.toFloat false).isFinite = true := by
  rcases written_cases decimal with ⟨infinite, text_eq⟩ | ⟨finite, shape, text_eq, rounds⟩
  · have words_eq : (number (decimal.toFloat false)).words = [.name "Infinity".toList] := by
      rw [words, CWord.wordsOf, text, text_eq]
      rfl
    rw [infinite]
    refine iff_of_false ?_ Bool.false_ne_true
    rintro ⟨shape, constant, -⟩
    rw [words_eq] at constant
    cases constant
  · refine iff_of_true ⟨shape, ?_, rounds⟩ finite
    rw [words, CWord.wordsOf, text, text_eq, (Begun.reaches_shape shape).wordsOf_eq]
    rfl

@[simp] theorem CPart.isLegal_name_iff {naming : Naming} (letters : IsName naming.name) :
    (name naming).IsLegal ↔ CWord.IsFree naming.name := by
  refine and_iff_right ?_
  rw [words, CWord.wordsOf, text, (Begun.reaches_of_isAlpha letters.1 letters.2).wordsOf_eq]
  rfl

private theorem Lexical.Written.exists_decimal {value : Float} {text : String} {raw : List Char}
    (written : Written (.number value) text raw) :
    ∃ decimal : Number.Decimal, value = decimal.toFloat false := by
  cases written with
  | whole | fraction => exact ⟨_, rfl⟩

@[simp] theorem CPart.mem_filterMap_number?_iff {parts : List CPart} {value : Float} :
    value ∈ parts.filterMap number? ↔ .number value ∈ parts := by
  rw [List.mem_filterMap]
  constructor
  · rintro ⟨part, member, found⟩
    cases part with
    | number other =>
      cases found
      exact member
    | _ => cases found
  · intro member
    exact ⟨_, member, rfl⟩

@[simp] theorem Token.mem_filterMap_number?_iff {tokens : List Token} {value : Float} :
    value ∈ tokens.filterMap number? ↔ ∃ token ∈ tokens, token.lexeme = .number value := by
  simp only [List.mem_filterMap, number?]
  refine exists_congr fun token => and_congr_right fun _ => ?_
  split <;> simp_all

@[simp] theorem Token.mem_filterMap_name?_iff {tokens : List Token} {name : String} :
    name ∈ tokens.filterMap name? ↔ ∃ token ∈ tokens, token.lexeme = .identifier name := by
  simp only [List.mem_filterMap, name?]
  refine exists_congr fun token => and_congr_right fun _ => ?_
  split <;> simp_all

namespace CText

variable {precision : Int} {body : List Token} {tree : List Statement}

theorem numbers_partsOfTree (derived : Grammar.Program body tree) :
    (partsOfTree precision tree).filterMap CPart.number? = body.filterMap Token.number? := by
  rw [filterMap_number?_partsOfTree, derived.numbers_eq]

theorem names_partsOfTree (derived : Grammar.Program body tree) (name : String) :
    (∃ naming, .name naming ∈ partsOfTree precision tree ∧ naming.name = name) ↔
      name ∈ body.filterMap Token.name? := by
  simp only [name_mem_partsOfTree_iff]
  rw [← Naming.map_name_ofTokens, derived.namings_eq, List.mem_map]

variable {source : String} {last : Int}
  (tokenized : Lexer.tokens source = .ok (body ++ [Token.eofAt last]))
  (derived : Grammar.Program body tree)
include tokenized derived

theorem isLexed_partsOfTree : ∀ part ∈ partsOfTree precision tree, part.IsLexed := by
  intro part member
  have proper (row : CLine) (inRows : row ∈ linesOf tree) : row.IsProper :=
    isProper_of_mem_linesOf ⟨body, last, tokenized, derived⟩ inRows
  cases word : part.isWord with
  | false =>
    obtain ⟨row, inRows, inRow | rfl⟩ := mem_partsOf_iff.mp member
    · exact CLine.isLexed_parts precision (proper row inRows) part inRow word
    · rfl
  | true =>
    cases part with
    | fixed | literal => cases word
    | name naming =>
      obtain ⟨row, inRows, named⟩ := name_mem_partsOf_iff.mp member
      exact (proper row inRows).names naming named
    | number value =>
      rw [← CPart.mem_filterMap_number?_iff, numbers_partsOfTree derived,
        Token.mem_filterMap_number?_iff] at member
      obtain ⟨token, inBody, lexeme_eq⟩ := member
      obtain ⟨raw, written⟩ := Lexer.exists_written_of_tokens tokenized inBody
      rw [lexeme_eq] at written
      exact written.exists_decimal

private theorem isLegal_partsOfTree_iff :
    (∀ part ∈ partsOfTree precision tree, part.IsLegal) ↔ ∀ token ∈ body, token.IsSafe := by
  have lexed := @isLexed_partsOfTree precision _ _ _ _ tokenized derived
  constructor
  · intro legal token inBody
    unfold Token.IsSafe
    split
    · next value lexeme_eq =>
      have member := Token.mem_filterMap_number?_iff.mpr ⟨token, inBody, lexeme_eq⟩
      rw [← numbers_partsOfTree derived, CPart.mem_filterMap_number?_iff] at member
      obtain ⟨decimal, rfl⟩ := lexed _ member
      exact (CPart.isLegal_number_iff decimal).mp (legal _ member)
    · next name lexeme_eq =>
      have member := Token.mem_filterMap_name?_iff.mpr ⟨token, inBody, lexeme_eq⟩
      obtain ⟨naming, inParts, rfl⟩ := (names_partsOfTree derived name).mpr member
      exact (CPart.isLegal_name_iff (lexed _ inParts)).mp (legal _ inParts)
    · trivial
  · intro safe part member
    cases part with
    | fixed | literal => trivial
    | name naming =>
      have named := (names_partsOfTree derived naming.name).mp ⟨naming, member, rfl⟩
      obtain ⟨token, inBody, lexeme_eq⟩ := Token.mem_filterMap_name?_iff.mp named
      have free := safe token inBody
      rw [Token.IsSafe, lexeme_eq] at free
      exact (CPart.isLegal_name_iff (lexed _ member)).mpr free
    | number value =>
      have numbered := CPart.mem_filterMap_number?_iff.mpr member
      rw [numbers_partsOfTree derived, Token.mem_filterMap_number?_iff] at numbered
      obtain ⟨token, inBody, lexeme_eq⟩ := numbered
      have finite := safe token inBody
      rw [Token.IsSafe, lexeme_eq] at finite
      obtain ⟨decimal, rfl⟩ := lexed _ member
      exact (CPart.isLegal_number_iff decimal).mpr finite

end CText

namespace Sample

/-- An assignment of a whole number to a variable. -/
def assigning (name digits : List Char) : String :=
  String.ofList ("LET".toList ++ ' ' :: (name ++ ' ' :: (['='] ++ ' ' :: digits)))

def assigningTree (name digits : List Char) : List Statement :=
  [.action (.assign (String.ofList name) (.number (Lexer.numberValue digits [])))]

section Assigning

variable {name digits : List Char} {text : String}
  (named : Lexical.Written (.identifier (String.ofList name)) text name)
  (filled : digits ≠ []) (inside : ∀ character ∈ digits, character.isDigit = true)
include named filled inside

private theorem sourceTree_assigning :
    SourceTree (assigning name digits) (assigningTree name digits) := by
  have ended : Lexical.Spelled [] [] := .nothing (.blanks (by simp))
  have spelled := ((ended.lexeme_newline (.whole filled inside)).lexeme_blank
    .assign).lexeme_blank named
  have whole : Lexical.Spelled ((assigning name digits).toList ++ ['\n'])
      [.keyword .letWord, .identifier (String.ofList name), .assign,
        .number (Lexer.numberValue digits []), .newline] := by
    have source_eq : (assigning name digits).toList ++ ['\n'] =
        "LET".toList ++ ' ' :: (name ++ ' ' :: (['='] ++ ' ' :: (digits ++ '\n' :: []))) := by
      simp [assigning]
    rw [source_eq]
    exact spelled.lexeme_blank (.keyword .letWord)
  obtain ⟨body, last, tokenized, lexemes⟩ := whole.exists_tokens
  refine ⟨body, last, tokenized, ?_⟩
  obtain ⟨_, _, _, rfl, behindLet⟩ := Grammar.exists_token_of_map lexemes
  obtain ⟨_, _, _, rfl, behindName⟩ := Grammar.exists_token_of_map behindLet
  obtain ⟨_, _, _, rfl, behindAssign⟩ := Grammar.exists_token_of_map behindName
  obtain ⟨_, _, _, rfl, behindNumber⟩ := Grammar.exists_token_of_map behindAssign
  obtain ⟨_, _, _, rfl, behindLine⟩ := Grammar.exists_token_of_map behindNumber
  obtain rfl := List.map_eq_nil_iff.mp behindLine
  exact .statements (.line (.assign (.first (.first (.unsigned .number)))) .one .none)

theorem ofSource_assigning (precision : Int) :
    CProgram.ofSource precision (assigning name digits) =
      .ok (CText.ofTree precision (assigningTree name digits)) := by
  refine CProgram.ofSource_eq_ok (sourceTree_assigning named filled inside) ⟨trivial, trivial⟩ ?_
    precision
  intro label jumped
  cases jumped with
  | tail _ further => cases further

end Assigning

theorem parts_assigning (precision : Int) (name digits : List Char) :
    .name (.assigned (String.ofList name)) ∈
        CText.partsOfTree precision (assigningTree name digits) ∧
      .number (Lexer.numberValue digits []) ∈
        CText.partsOfTree precision (assigningTree name digits) := by
  have row : CLine.assign (String.ofList name) (.number (Lexer.numberValue digits [])) ∈
      CText.linesOf (assigningTree name digits) :=
    List.mem_append_right _ (List.mem_append_left _ List.mem_cons_self)
  constructor
  · exact CText.mem_partsOf_iff.mpr ⟨_, row, .inl List.mem_cons_self⟩
  · exact CText.mem_partsOf_iff.mpr
      ⟨_, row, .inl (List.mem_cons_of_mem _ (List.mem_cons_of_mem _ List.mem_cons_self))⟩

private theorem written_int : Lexical.Written (.identifier "int") "int" ['i', 'n', 't'] :=
  .identifier (by decide) (List.all_eq_true.mp rfl) fun word => by cases word <;> decide

theorem written_x : Lexical.Written (.identifier "x") "x" ['x'] :=
  .identifier (by decide) (List.all_eq_true.mp rfl) fun word => by cases word <;> decide

def hugeDigits : List Char :=
  '1' :: List.replicate 309 '0'

private theorem isDigit_of_mem_hugeDigits : ∀ character ∈ hugeDigits, character.isDigit = true :=
  List.forall_mem_cons.mpr ⟨rfl, fun _ => Number.isDigit_of_mem_replicate⟩

end Sample

/-- The C text of a program is made of parts, which a reader of C reads word by word.  The numbers
among them are the number tokens in their order and the names are the identifiers, and all of them
are the right words just if every number is a finite double and no name is a keyword or a function
of C. -/
structure CProgram.IsRead (precision : Int) (body : List Token) (tree : List Statement)
    (code : String) : Prop where
  derived : Grammar.Program body tree
  text_eq : code = CPart.textOf (CText.partsOfTree precision tree)
  words_eq : CWord.wordsOf code = (CText.partsOfTree precision tree).flatMap CPart.words
  numbers_eq : (CText.partsOfTree precision tree).filterMap CPart.number? =
    body.filterMap Token.number?
  names_iff : ∀ name,
    (∃ naming, .name naming ∈ CText.partsOfTree precision tree ∧ naming.name = name) ↔
      name ∈ body.filterMap Token.name?
  isLegal_iff : (∀ part ∈ CText.partsOfTree precision tree, part.IsLegal) ↔
    ∀ token ∈ body, token.IsSafe

/-- Every accepted program is read so. -/
theorem CProgram.exists_isRead {precision : Int} {source code : String}
    (accepted : ofSource precision source = .ok code) :
    ∃ body last tree, Lexer.tokens source = .ok (body ++ [Token.eofAt last]) ∧
      IsRead precision body tree code := by
  obtain ⟨body, last, tree, tokenized, derived⟩ := exists_program_of_ofSource accepted
  obtain ⟨-, code_eq⟩ := of_accepted accepted ⟨body, last, tokenized, derived⟩
  have text_eq : code = CPart.textOf (CText.partsOfTree precision tree) := by
    rw [code_eq, CText.ofTree_eq_joined, CText.partsOfTree, CText.textOf_partsOf]
  refine ⟨body, last, tree, tokenized, derived, text_eq, ?_, CText.numbers_partsOfTree derived,
    CText.names_partsOfTree derived, CText.isLegal_partsOfTree_iff tokenized derived⟩
  rw [text_eq]
  exact CPart.wordsOf_textOf (CText.isLexed_partsOfTree tokenized derived)
    (CText.spaced_partsOf precision _)

theorem CProgram.exists_isRead_assigning :
    ofSource 2 "LET x = 7" = .ok (CText.ofTree 2 (Sample.assigningTree ['x'] ['7'])) ∧
      ∃ body last tree, Lexer.tokens "LET x = 7" = .ok (body ++ [Token.eofAt last]) ∧
        IsRead 2 body tree (CText.ofTree 2 (Sample.assigningTree ['x'] ['7'])) := by
  have accepted : ofSource 2 "LET x = 7" =
      .ok (CText.ofTree 2 (Sample.assigningTree ['x'] ['7'])) :=
    Sample.ofSource_assigning Sample.written_x (by decide) (List.all_eq_true.mp rfl) 2
  exact ⟨accepted, exists_isRead accepted⟩

/-- A variable can be called `int`, and a number can be too large for a double. -/
theorem CProgram.exists_not_isLegal :
    (ofSource 2 "LET int = 1" = .ok (CText.ofTree 2 (Sample.assigningTree ['i', 'n', 't'] ['1'])) ∧
      .name (.assigned "int") ∈ CText.partsOfTree 2 (Sample.assigningTree ['i', 'n', 't'] ['1']) ∧
      ¬(CPart.name (.assigned "int")).IsLegal) ∧
    ofSource 2 ("LET x = " ++ String.ofList Sample.hugeDigits) =
        .ok (CText.ofTree 2 (Sample.assigningTree ['x'] Sample.hugeDigits)) ∧
      .number (Lexer.numberValue Sample.hugeDigits []) ∈
        CText.partsOfTree 2 (Sample.assigningTree ['x'] Sample.hugeDigits) ∧
      (CPart.number (Lexer.numberValue Sample.hugeDigits [])).text = "Infinity" ∧
      ¬(CPart.number (Lexer.numberValue Sample.hugeDigits [])).IsLegal := by
  refine ⟨⟨?_, (Sample.parts_assigning 2 _ _).1, ?_⟩, ?_, (Sample.parts_assigning 2 _ _).2, ?_, ?_⟩
  · exact Sample.ofSource_assigning Sample.written_int (by decide) (List.all_eq_true.mp rfl) 2
  · rintro ⟨-, free⟩
    exact absurd free (by decide)
  · have source_eq : "LET x = " ++ String.ofList Sample.hugeDigits =
        Sample.assigning ['x'] Sample.hugeDigits := by
      rw [← String.toList_inj]
      simp [Sample.assigning]
    rw [source_eq]
    exact Sample.ofSource_assigning Sample.written_x (by decide) Sample.isDigit_of_mem_hugeDigits 2
  · decide +kernel
  · have infinite : (Lexer.numberValue Sample.hugeDigits []).isFinite = false := by decide +kernel
    intro legal
    have finite := (CPart.isLegal_number_iff _).mp legal
    exact Bool.false_ne_true (infinite.symm.trans finite)

end TeenyBasic
