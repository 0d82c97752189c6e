import TeenyBasic.Proofs.Acceptance
import TeenyBasic.Proofs.CLines
import TeenyBasic.Proofs.JumpTable
import TeenyBasic.Proofs.Walk

/-!
# The structure of C programs

Whatever names and strings a program has, its C text is built as it should be: literals end on the
lines on which they begin, everything between the braces of `main` stays between them, jumps have
one label each and variables one declaration each.  `CProgram.IsBuilt` lists what that means, and
it holds of every program that is put into C.
-/

namespace TeenyBasic

theorem Lexer.exists_written_of_tokens {source : String} {body : List Token} {last : Int}
    (tokenized : Lexer.tokens source = .ok (body ++ [Token.eofAt last])) {token : Token}
    (member : token ∈ body) : ∃ raw, Lexical.Written token.lexeme token.text raw := by
  obtain ⟨scanned, ends⟩ := Lexer.scan_of_tokens tokenized
  obtain ⟨pieces, bottom, cut, same⟩ := Lexical.exists_cut_of_scan _ ends
  rw [← scanned, same, List.mem_map] at member
  obtain ⟨piece, inside, rfl⟩ := member
  exact ⟨piece.raw, cut.written piece inside⟩

private theorem Naming.exists_identifier_of_mem_ofTokens {tokens : List Token} {naming : Naming}
    (member : naming ∈ ofTokens tokens) :
    ∃ token ∈ tokens, token.lexeme = .identifier naming.name := by
  fun_induction ofTokens tokens with
  | case1 word text line name text' line' rest induction =>
    rcases List.mem_cons.mp member with rfl | member
    · refine ⟨⟨.identifier name, text', line'⟩, by simp, ?_⟩
      cases word <;> rfl
    · obtain ⟨token, inside, found⟩ := induction member
      exact ⟨token, by simp [inside], found⟩
  | case2 name text line rest induction =>
    rcases List.mem_cons.mp member with rfl | member
    · exact ⟨⟨.identifier name, text, line⟩, by simp, rfl⟩
    · obtain ⟨token, inside, found⟩ := induction member
      exact ⟨token, by simp [inside], found⟩
  | case3 token rest _ _ induction =>
    obtain ⟨token, inside, found⟩ := induction member
    exact ⟨token, by simp [inside], found⟩
  | case4 => cases member

namespace Grammar

theorem Line.exists_string {tokens rest : List Token} {statement : Statement} {content : String}
    (derived : Line tokens statement rest) (printed : .printText content ∈ statement.lines) :
    ∃ token ∈ tokens, token.lexeme = .string content := by
  cases derived with
  | @printText other _ _ _ text line =>
    obtain rfl : content = other := by simpa [Statement.lines, Action.lines] using printed
    exact ⟨⟨.string content, text, line⟩, by simp, rfl⟩
  | printValue | label | goto | assign | input =>
    simp [Statement.lines, Action.lines] at printed

/-- What a program prints as text stands in a string. -/
theorem Statements.exists_string {tokens rest : List Token} {statements : List Statement}
    {content : String} (derived : Statements tokens statements rest)
    (printed : .printText content ∈ Statement.linesOf statements) :
    ∃ token ∈ tokens, token.lexeme = .string content := by
  induction derived with
  | none => cases printed
  | line first ends _ induction =>
    rcases List.mem_append.mp printed with here | later
    · exact first.exists_string here
    · obtain ⟨token, inside, found⟩ := induction later
      obtain ⟨word, text, line, tail, rfl, -, passes⟩ := first.passes
      have behind := (passes.trans ends.passes).suffix.subset inside
      exact ⟨token, List.mem_cons_of_mem _ behind, found⟩
  | block condition ends body ends' _ bodyInduction induction =>
    have inner := condition.header_suffix ends
    rcases List.mem_append.mp printed with here | later
    · obtain ⟨token, inside, found⟩ := bodyInduction (by simpa [Statement.lines] using here)
      exact ⟨token, List.mem_cons_of_mem _ (inner.subset inside), found⟩
    · obtain ⟨token, inside, found⟩ := induction later
      have behind := ends'.passes.suffix.trans ((List.suffix_cons _ _).trans body.suffix)
      exact ⟨token, List.mem_cons_of_mem _ ((behind.trans inner).subset inside), found⟩

theorem Program.exists_string {tokens : List Token} {tree : List Statement} {content : String}
    (derived : Program tokens tree) (printed : .printText content ∈ Statement.linesOf tree) :
    ∃ token ∈ tokens, token.lexeme = .string content := by
  obtain ⟨token, inside, found⟩ := derived.statements_dropWhile.exists_string printed
  exact ⟨token, (List.dropWhile_suffix _).subset inside, found⟩

end Grammar

private theorem isName_of_written {name text : String} {raw : List Char}
    (written : Lexical.Written (.identifier name) text raw) : IsName name := by
  cases written with
  | identifier filled letters _ =>
    rw [IsName, String.toList_ofList]
    exact ⟨filled, letters⟩

private theorem isContent_of_written {content text : String} {raw : List Char}
    (written : Lexical.Written (.string content) text raw) : IsContent content := by
  cases written with
  | string allowed =>
    rw [IsContent, String.toList_ofList]
    exact allowed

namespace Statement

mutual

/-- A line has no names but those of its statement. -/
theorem mem_namings_of_mem_lines {naming : Naming} {line : CLine} (statement : Statement)
    (member : line ∈ statement.lines) (named : naming ∈ line.namings) :
    naming ∈ statement.namings := by
  cases statement with
  | action simple =>
    cases simple with
    | printText content | printValue value | assign name value =>
      obtain rfl := List.mem_singleton.mp member
      exact named
    | input name =>
      simp only [lines, Action.lines, List.mem_cons, List.not_mem_nil, or_false] at member
      rcases member with rfl | rfl | rfl | rfl
      · exact named
      · exact named
      · cases named
      · cases named
  | label name line' | goto name line' =>
    obtain rfl := List.mem_singleton.mp member
    exact named
  | block kind condition body =>
    simp only [lines, List.cons_append, List.mem_cons, List.mem_append, List.not_mem_nil, or_false]
      at member
    rcases member with rfl | inBody | rfl
    · exact List.mem_append_left _ named
    · exact List.mem_append_right _ (mem_namingsOf_of_mem_linesOf body inBody named)
    · cases named

theorem mem_namingsOf_of_mem_linesOf {naming : Naming} {line : CLine}
    (statements : List Statement) (member : line ∈ linesOf statements)
    (named : naming ∈ line.namings) : naming ∈ namingsOf statements := by
  cases statements with
  | nil => cases member
  | cons statement rest =>
    rcases List.mem_append.mp member with here | later
    · exact List.mem_append_left _ (mem_namings_of_mem_lines statement here named)
    · exact List.mem_append_right _ (mem_namingsOf_of_mem_linesOf rest later named)

end

mutual

@[simp] theorem count_label_lines (name : String) (statement : Statement) :
    (statement.lines.filterMap CLine.label?).count name =
      statement.namings.count (.declared name) := by
  cases statement with
  | action simple =>
    have unnamed := simple.declared_notMem_namings name
    rw [namings, List.count_eq_zero.mpr unnamed]
    cases simple <;> rfl
  | label other line => simp [lines, CLine.label?, namings, List.count_singleton]
  | goto other line => simp [lines, CLine.label?, namings, List.filterMap_cons]
  | block kind condition body =>
    have unnamed := condition.declared_notMem_namings name
    rw [namings, List.count_append, List.count_eq_zero.mpr unnamed, Nat.zero_add,
      ← count_label_linesOf name body, lines, List.cons_append, List.filterMap_cons_none rfl,
      List.filterMap_append]
    simp [CLine.label?, List.filterMap_cons]

/-- A label has as many lines as it has declarations. -/
@[simp] theorem count_label_linesOf (name : String) (statements : List Statement) :
    ((linesOf statements).filterMap CLine.label?).count name =
      (namingsOf statements).count (.declared name) := by
  cases statements with
  | nil => rfl
  | cons statement rest =>
    rw [linesOf, List.filterMap_append, List.count_append, count_label_lines name statement,
      count_label_linesOf name rest, namingsOf, List.count_append]

end

mutual

theorem declaration_notMem_lines (name : String) (statement : Statement) :
    .declaration name ∉ statement.lines := by
  cases statement with
  | action simple => cases simple <;> simp [lines, Action.lines]
  | label | goto => simp [lines]
  | block kind condition body => simp [lines, declaration_notMem_linesOf name body]

/-- Variables are declared in front of the statements only. -/
theorem declaration_notMem_linesOf (name : String) (statements : List Statement) :
    .declaration name ∉ linesOf statements := by
  cases statements with
  | nil => simp [linesOf]
  | cons statement rest =>
    simp [linesOf, declaration_notMem_lines name statement, declaration_notMem_linesOf name rest]

end

end Statement

private theorem Naming.count_declared_of_labelsDistinct {namings : List Naming} {name : String}
    (distinct : LabelsDistinct namings) (member : .declared name ∈ namings) :
    namings.count (.declared name) = 1 := by
  obtain ⟨before, after, rfl⟩ := List.append_of_mem member
  have fresh := distinct before name after rfl
  have last : .declared name ∉ after := by
    intro again
    obtain ⟨middle, rest, rfl⟩ := List.append_of_mem again
    have clash := distinct (before ++ .declared name :: middle) name rest (by simp)
    simp at clash
  rw [List.count_append, List.count_cons_self, List.count_eq_zero.mpr fresh,
    List.count_eq_zero.mpr last]

namespace CText

variable {precision : Int} {tree : List Statement}

theorem mem_namingsOf_of_mem {naming : Naming} {line : CLine} (member : line ∈ linesOf tree)
    (named : naming ∈ line.namings) : naming ∈ Statement.namingsOf tree := by
  simp only [linesOf, header, List.cons_append, List.mem_cons, List.mem_append, List.mem_map,
    List.not_mem_nil, or_false] at member
  rcases member with rfl | rfl | ⟨name, target, rfl⟩ | inTree | rfl | rfl
  · cases named
  · cases named
  · obtain rfl := List.mem_singleton.mp named
    exact Naming.mem_targets.mp target
  · exact Statement.mem_namingsOf_of_mem_linesOf tree inTree named
  · cases named
  · cases named

private theorem mem_linesOf_of_printText {content : String}
    (member : .printText content ∈ linesOf tree) :
    .printText content ∈ Statement.linesOf tree := by
  simpa [linesOf, header] using member

private theorem filterMap_label?_linesOf :
    (linesOf tree).filterMap CLine.label? = (Statement.linesOf tree).filterMap CLine.label? := by
  have declarations (names : List String) :
      (names.map CLine.declaration).filterMap CLine.label? = [] := by
    rw [List.filterMap_map]
    exact List.filterMap_eq_nil_iff.mpr fun _ _ => rfl
  simp [linesOf, header, List.filterMap_cons, CLine.label?, declarations]

@[simp] theorem filterMap_declaration?_header :
    (header tree).filterMap CLine.declaration? = Naming.targets (Statement.namingsOf tree) := by
  rw [header, List.filterMap_cons_none rfl, List.filterMap_cons_none rfl, List.filterMap_map]
  exact List.filterMap_some

private theorem filterMap_declaration?_linesOf :
    (linesOf tree).filterMap CLine.declaration? = Naming.targets (Statement.namingsOf tree) := by
  have others : (Statement.linesOf tree).filterMap CLine.declaration? = [] := by
    refine List.filterMap_eq_nil_iff.mpr fun line member => ?_
    cases line with
    | declaration name => exact absurd member (Statement.declaration_notMem_linesOf name tree)
    | _ => rfl
  rw [linesOf, List.filterMap_append, List.filterMap_append, filterMap_declaration?_header, others]
  exact List.append_nil _

/-- The pieces of lines, with a line feed behind each line. -/
def piecesOf (precision : Int) (lines : List CLine) : List CPiece :=
  lines.flatMap fun row => row.pieces precision ++ [.lineFeed]

theorem piecesOf_cons (row : CLine) (rest : List CLine) :
    piecesOf precision (row :: rest) =
      row.pieces precision ++ [.lineFeed] ++ piecesOf precision rest :=
  List.flatMap_cons

@[simp] theorem piecesOf_append (first second : List CLine) :
    piecesOf precision (first ++ second) = piecesOf precision first ++ piecesOf precision second :=
  List.flatMap_append

private theorem joined_eq_textOf (lines : List CLine) :
    joined precision lines = CPiece.textOf (piecesOf precision lines) := by
  induction lines with
  | nil => rfl
  | cons row rest induction =>
    rw [joined_cons, induction, piecesOf_cons, CPiece.textOf_append, CPiece.textOf_append]
    rfl

end CText

/-- The depth of braces is in the end what it was in the beginning, and not less on the way. -/
structure CPiece.IsLevel (pieces : List CPiece) : Prop where
  rise : riseOf pieces = 0
  low : lowest pieces = 0

theorem CPiece.IsLevel.append {first second : List CPiece} (level : IsLevel first)
    (level' : IsLevel second) : IsLevel (first ++ second) where
  rise := by
    rw [riseOf_append, level.rise, level'.rise]
    rfl
  low := by
    rw [lowest_append, level.rise, level.low, level'.low]
    rfl

namespace Statement

variable (precision : Int)

mutual

theorem isLevel_lines (statement : Statement) :
    CPiece.IsLevel (CText.piecesOf precision statement.lines) := by
  cases statement with
  | action simple => cases simple <;> exact ⟨rfl, rfl⟩
  | label | goto => exact ⟨rfl, rfl⟩
  | block kind condition body =>
    have opened : CPiece.riseOf (CText.piecesOf precision [.opening kind condition]) = 1 ∧
      CPiece.lowest (CText.piecesOf precision [.opening kind condition]) = 0 := ⟨rfl, rfl⟩
    have closed : CPiece.riseOf (CText.piecesOf precision [.closing]) = -1 ∧
      CPiece.lowest (CText.piecesOf precision [.closing]) = -1 := ⟨rfl, rfl⟩
    have body := isLevel_linesOf body
    rw [lines, ← List.singleton_append, CText.piecesOf_append, CText.piecesOf_append]
    constructor
    · rw [CPiece.riseOf_append, CPiece.riseOf_append, opened.1, closed.1, body.rise]
      rfl
    · rw [CPiece.lowest_append, CPiece.lowest_append, CPiece.riseOf_append, opened.1, opened.2,
        closed.2, body.rise, body.low]
      rfl

/-- Every block is closed. -/
theorem isLevel_linesOf (statements : List Statement) :
    CPiece.IsLevel (CText.piecesOf precision (linesOf statements)) := by
  cases statements with
  | nil => exact ⟨rfl, rfl⟩
  | cons statement rest =>
    rw [linesOf, CText.piecesOf_append]
    exact (isLevel_lines statement).append (isLevel_linesOf rest)

end

end Statement

def CLine.literals (precision : Int) (line : CLine) : List String :=
  (line.pieces precision).flatMap CPiece.literals

namespace CText

variable {precision : Int} {tree : List Statement}

/-- The lines between the first brace and the last one. -/
def inside (tree : List Statement) : List CLine :=
  (Naming.targets (Statement.namingsOf tree)).map .declaration ++
    (Statement.linesOf tree ++ [.returnZero])

theorem linesOf_eq_inside : linesOf tree = [.includes, .main] ++ (inside tree ++ [.closing]) := by
  simp [linesOf, header, inside]

theorem isLevel_inside : CPiece.IsLevel (piecesOf precision (inside tree)) := by
  have declarations (names : List String) :
      CPiece.IsLevel (piecesOf precision (names.map .declaration)) := by
    induction names with
    | nil => exact ⟨rfl, rfl⟩
    | cons name rest induction =>
      have first : CPiece.IsLevel ((CLine.declaration name).pieces precision ++ [.lineFeed]) :=
        ⟨rfl, rfl⟩
      rw [List.map_cons, piecesOf_cons]
      exact first.append induction
  have last : CPiece.IsLevel (piecesOf precision [.returnZero]) := ⟨rfl, rfl⟩
  rw [inside, piecesOf_append, piecesOf_append]
  exact (declarations _).append ((Statement.isLevel_linesOf precision tree).append last)

private theorem flatMap_literals_piecesOf (lines : List CLine) :
    (piecesOf precision lines).flatMap CPiece.literals =
      lines.flatMap (CLine.literals precision) := by
  induction lines with
  | nil => rfl
  | cons row rest induction =>
    rw [piecesOf_cons, List.flatMap_append, List.flatMap_append, induction, List.flatMap_cons]
    exact congrArg (· ++ _) (List.append_nil _)

/-- A reader goes through proper lines as their pieces say. -/
theorem passage_joined {lines : List CLine} (proper : ∀ line ∈ lines, line.IsProper) :
    Passage (joined precision lines).toList (CPiece.riseOf (piecesOf precision lines))
      (CPiece.lowest (piecesOf precision lines))
      ((lines.flatMap (CLine.literals precision)).map String.toList) := by
  rw [joined_eq_textOf, ← flatMap_literals_piecesOf]
  refine CPiece.passage_textOf fun piece member => ?_
  obtain ⟨row, inLines, inRow⟩ := List.mem_flatMap.mp member
  rcases List.mem_append.mp inRow with inRow | last
  · exact (proper row inLines).isSound piece inRow
  · obtain rfl := List.mem_singleton.mp last
    trivial

theorem isProper_of_mem_linesOf {source : String} (derives : SourceTree source tree) {line : CLine}
    (member : line ∈ linesOf tree) : line.IsProper := by
  obtain ⟨body, last, tokenized, derived⟩ := derives
  constructor
  · intro naming named
    have inTree := mem_namingsOf_of_mem member named
    rw [← derived.namings_eq] at inTree
    obtain ⟨⟨lexeme, text, place⟩, inBody, rfl⟩ := Naming.exists_identifier_of_mem_ofTokens inTree
    obtain ⟨raw, written⟩ := Lexer.exists_written_of_tokens tokenized inBody
    exact isName_of_written written
  · rintro content rfl
    obtain ⟨⟨lexeme, text, place⟩, inBody, rfl⟩ :=
      derived.exists_string (mem_linesOf_of_printText member)
    obtain ⟨raw, written⟩ := Lexer.exists_written_of_tokens tokenized inBody
    exact isContent_of_written written

def rows (precision : Int) (tree : List Statement) : List String :=
  (linesOf tree).map (CLine.text precision)

/-- A label is declared in one row if it is declared at all. -/
theorem count_label_rows {name : String} (letters : IsName name)
    (distinct : Naming.LabelsDistinct (Statement.namingsOf tree))
    (member : .declared name ∈ Statement.namingsOf tree) :
    (rows precision tree).count (name ++ ":;") = 1 := by
  rw [rows, CLine.count_text fun line => CLine.text_eq_label_iff letters, filterMap_label?_linesOf,
    Statement.count_label_linesOf, Naming.count_declared_of_labelsDistinct distinct member]

private theorem jumped_of_mem_rows {name : String} (letters : IsName name)
    (member : "goto " ++ name ++ ";" ∈ rows precision tree) :
    .jumped name ∈ Statement.namingsOf tree := by
  obtain ⟨line, inLines, same⟩ := List.mem_map.mp member
  rw [String.append_assoc] at same
  obtain rfl := CLine.eq_goto_of_text letters same
  exact mem_namingsOf_of_mem inLines List.mem_cons_self

/-- An assigned variable is declared in one row, which is in the header. -/
theorem count_declaration_rows {name : String} (letters : IsName name)
    (member : .assigned name ∈ Statement.namingsOf tree) :
    ((header tree).map (CLine.text precision)).count ("float " ++ name ++ ";") = 1 ∧
      (rows precision tree).count ("float " ++ name ++ ";") = 1 := by
  have once : (Naming.targets (Statement.namingsOf tree)).count name = 1 :=
    List.count_eq_one_of_mem (Naming.nodup_targets _) (Naming.mem_targets.mpr member)
  have told (line : CLine) : line.text precision = "float " ++ name ++ ";" ↔
      line.declaration? = some name := by
    rw [String.append_assoc, CLine.text_eq_declaration_iff letters]
  rw [rows, CLine.count_text told, CLine.count_text told, filterMap_declaration?_header,
    filterMap_declaration?_linesOf]
  exact ⟨once, once⟩

theorem preamble_eq_joined : preamble = joined precision [.includes, .main] := by
  simp [preamble, joined, CLine.text, CPiece.textOf, CLine.pieces, CPiece.text]

private theorem line_eq_joined : line "\x7d" = joined precision [.closing] := by
  simp [joined, CLine.text, CPiece.textOf, CLine.pieces, CPiece.text]

private theorem ofTree_eq_inside :
    ofTree precision tree = preamble ++ joined precision (inside tree) ++ line "\x7d" := by
  rw [ofTree_eq_joined, linesOf_eq_inside, joined_append, joined_append, preamble_eq_joined,
    line_eq_joined, String.append_assoc]

private theorem riseOf_linesOf : CPiece.riseOf (piecesOf precision (linesOf tree)) = 0 := by
  have opened : CPiece.riseOf (piecesOf precision [.includes, .main]) = 1 := rfl
  have closed : CPiece.riseOf (piecesOf precision [.closing]) = -1 := rfl
  rw [linesOf_eq_inside, piecesOf_append, piecesOf_append, CPiece.riseOf_append,
    CPiece.riseOf_append, opened, isLevel_inside.rise, closed]
  rfl

/-- The depth is at least one from the first brace to the last line. -/
theorem one_le_depth (proper : ∀ line ∈ linesOf tree, line.IsProper) {part : List Char}
    (inner : part <+: (joined precision (inside tree)).toList) :
    1 ≤ (CReader.read (preamble.toList ++ part)).depth := by
  rw [linesOf_eq_inside] at proper
  have before := @passage_joined precision [.includes, .main] fun line member =>
    proper line (List.mem_append_left _ member)
  have behind := @passage_joined precision (inside tree) fun line member =>
    proper line (List.mem_append_right _ (List.mem_append_left _ member))
  rw [isLevel_inside.low] at behind
  rw [CReader.read, CReader.readOn_append, preamble_eq_joined, before.ends CReader.start rfl]
  exact behind.stays _ rfl part inner

end CText

namespace CProgram

/-- The C program of a tree is built as it should be. -/
structure IsBuilt (precision : Int) (tree : List Statement) (code : String) : Prop where
  /-- The code is made of rows, each with a line feed behind it … -/
  code_eq : code = String.join ((CText.rows precision tree).map CText.line)
  /-- … and with no other line feed. -/
  lineFeed_notMem : ∀ row ∈ CText.rows precision tree, '\n' ∉ row.toList
  /-- No row ends inside a literal. -/
  literal_eq_none : ∀ before after, code.toList = before ++ '\n' :: after →
    (CReader.read before).literal = none
  /-- The literals are those of the lines: that of a printed string is its content with `\n`
  behind it. -/
  literals_eq : (CReader.read code.toList).literals =
    ((CText.linesOf tree).flatMap (CLine.literals precision)).map String.toList
  /-- Printed strings hold no quote, percent sign or backslash of their own. -/
  isContent : ∀ content, .printText content ∈ CText.linesOf tree → IsContent content
  /-- Braces are balanced … -/
  depth_eq : (CReader.read code.toList).depth = 0
  /-- … and all lines between the first brace and the last line stay inside. -/
  enclosed : code = CText.preamble ++ CText.joined precision (CText.inside tree) ++
      CText.line "\x7d" ∧
    ∀ part, part <+: (CText.joined precision (CText.inside tree)).toList →
      1 ≤ (CReader.read (CText.preamble.toList ++ part)).depth
  /-- Every jump has its label once. -/
  count_label_eq : ∀ name, IsName name → "goto " ++ name ++ ";" ∈ CText.rows precision tree →
    (CText.rows precision tree).count (name ++ ":;") = 1
  /-- Every variable is declared once, in the header. -/
  count_declaration_eq : ∀ line ∈ CText.linesOf tree, ∀ name,
    .read name ∈ line.namings ∨ .assigned name ∈ line.namings →
    ((CText.header tree).map (CLine.text precision)).count ("float " ++ name ++ ";") = 1 ∧
      (CText.rows precision tree).count ("float " ++ name ++ ";") = 1

theorem isBuilt_ofTree {source : String} {tree : List Statement} (derives : SourceTree source tree)
    (assigned : Naming.AssignedBeforeRead (Statement.namingsOf tree))
    (distinct : Naming.LabelsDistinct (Statement.namingsOf tree))
    (declared : Naming.JumpsDeclared (Statement.namingsOf tree)) (precision : Int) :
    IsBuilt precision tree (CText.ofTree precision tree) := by
  have proper (line : CLine) (member : line ∈ CText.linesOf tree) : line.IsProper :=
    CText.isProper_of_mem_linesOf derives member
  have passage := @CText.passage_joined precision _ proper
  have whole := passage.ends CReader.start rfl
  rw [← CText.ofTree_eq_joined] at passage whole
  constructor
  case code_eq =>
    rw [CText.ofTree_eq_joined, CText.joined, CText.rows, List.map_map]
    rfl
  case lineFeed_notMem =>
    intro row member
    obtain ⟨line, inLines, rfl⟩ := List.mem_map.mp member
    exact (proper line inLines).lineFeed_notMem_text
  case literal_eq_none => exact passage.lineEnds CReader.start rfl
  case literals_eq =>
    rw [CReader.read, whole]
    rfl
  case isContent =>
    intro content member
    exact (proper _ member).contents content rfl
  case depth_eq =>
    rw [CReader.read, whole, CText.riseOf_linesOf]
    rfl
  case enclosed =>
    exact ⟨CText.ofTree_eq_inside, fun part inner => CText.one_le_depth proper inner⟩
  case count_label_eq =>
    intro name letters member
    have jumped := CText.jumped_of_mem_rows letters member
    exact CText.count_label_rows letters distinct (declared name jumped)
  case count_declaration_eq =>
    rintro line member name (named | named)
    · have letters := (proper line member).names _ named
      obtain ⟨before, after, split⟩ := List.append_of_mem (CText.mem_namingsOf_of_mem member named)
      refine CText.count_declaration_rows letters ?_
      rw [split]
      exact List.mem_append_left _ (assigned before name after split)
    · have letters := (proper line member).names _ named
      exact CText.count_declaration_rows letters (CText.mem_namingsOf_of_mem member named)

end CProgram

namespace Sample

/-- The string that is printed looks like the end of the program. -/
def imitating : String :=
  "LABEL a\nINPUT n\nWHILE n>0 REPEAT\nPRINT \"\x7d goto b;\"\nGOTO a\nENDWHILE"

def imitatingTree : List Statement :=
  [.label "a" 1, .action (.input "n"),
    .block .loop (.compare .greater (.read "n" 3) (.number 0))
      [.action (.printText "\x7d goto b;"), .goto "a" 5]]

set_option maxRecDepth 10000 in
theorem sourceTree_imitating : SourceTree imitating imitatingTree := by
  have tokenized : Lexer.tokens imitating = .ok ([
      ⟨.keyword .labelWord, "LABEL", 1⟩, ⟨.identifier "a", "a", 1⟩, ⟨.newline, "\n", 1⟩,
      ⟨.keyword .inputWord, "INPUT", 2⟩, ⟨.identifier "n", "n", 2⟩, ⟨.newline, "\n", 2⟩,
      ⟨.keyword Block.loop.opener, "WHILE", 3⟩, ⟨.identifier "n", "n", 3⟩,
      ⟨.relation .greater, ">", 3⟩, ⟨.number 0, "0", 3⟩,
      ⟨.keyword Block.loop.separator, "REPEAT", 3⟩, ⟨.newline, "\n", 3⟩,
      ⟨.keyword .printWord, "PRINT", 4⟩, ⟨.string "\x7d goto b;", "\x7d goto b;", 4⟩,
      ⟨.newline, "\n", 4⟩, ⟨.keyword .gotoWord, "GOTO", 5⟩, ⟨.identifier "a", "a", 5⟩,
      ⟨.newline, "\n", 5⟩, ⟨.keyword Block.loop.closer, "ENDWHILE", 6⟩, ⟨.newline, "\n", 6⟩] ++
      [Token.eofAt 7]) := by
    cbv
  exact ⟨_, _, tokenized, .statements (.line .label .one (.line .input .one (.block
    (.first (.first (.first (.unsigned .identifier))) (.first (.first (.unsigned .number))))
    .one (.line .printText .one (.line .goto .one .none)) .one .none)))⟩

private theorem ofSource_imitating (precision : Int) :
    CProgram.ofSource precision imitating = .ok (CText.ofTree precision imitatingTree) := by
  refine CProgram.ofSource_eq_ok sourceTree_imitating (by decide) ?_ precision
  simp [Naming.JumpsDeclared, imitatingTree, Statement.namingsOf, Statement.namings,
    Action.namings, Condition.namings, Expression.namings]

end Sample

/-- Every text that is put into C has a tree, and the C program is built as it should be, whatever
names and strings the text has. -/
theorem CProgram.isBuilt_of_ofSource {precision : Int} {source code : String}
    (accepted : ofSource precision source = .ok code) :
    (∃ tree, SourceTree source tree) ∧
      ∀ tree, SourceTree source tree → IsBuilt precision tree code := by
  obtain ⟨body, last, tree, tokenized, derived⟩ := exists_program_of_ofSource accepted
  refine ⟨⟨tree, body, last, tokenized, derived⟩, fun other derives => ?_⟩
  obtain ⟨⟨lawful, declared⟩, rfl⟩ := of_accepted accepted derives
  obtain ⟨assigned, distinct⟩ := Naming.lawful_nil_iff.mp lawful
  exact isBuilt_ofTree derives assigned distinct declared precision

/-- The brace and the jump that are printed are neither. -/
theorem CProgram.isBuilt_of_ofSource_imitating :
    ofSource 2 Sample.imitating = .ok (CText.ofTree 2 Sample.imitatingTree) ∧
      SourceTree Sample.imitating Sample.imitatingTree ∧
      IsBuilt 2 Sample.imitatingTree (CText.ofTree 2 Sample.imitatingTree) := by
  have accepted := Sample.ofSource_imitating 2
  have derives := Sample.sourceTree_imitating
  exact ⟨accepted, derives, (isBuilt_of_ofSource accepted).2 _ derives⟩

end TeenyBasic
