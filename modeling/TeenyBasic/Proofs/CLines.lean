import TeenyBasic.CProgram
import TeenyBasic.Proofs.CReading
import TeenyBasic.Proofs.CText
import TeenyBasic.Proofs.PrintedNumbers

/-!
# The lines of a C program

The C text of a tree, taken line by line: what a line can be, what it reads, and which variables
stand in it.  Since names are letters and strings hold neither quotes nor backslashes, every line is
a passage (`CLine.passage`), and what a line is can be told from its text where that matters: lines
that jump and lines that declare a label look like no others.
-/

namespace TeenyBasic

def IsName (name : String) : Prop :=
  name.toList ≠ [] ∧ ∀ character ∈ name.toList, character.isAlpha = true

/-- The content of a string holds none of the characters that are forbidden there. -/
def IsContent (content : String) : Prop :=
  ∀ character ∈ content.toList, character ∉ ['\r', '\n', '\t', '%', '\\', '"']

inductive CLine
  | includes
  | main
  | declaration (name : String)
  | printText (content : String)
  | printValue (value : Expression)
  | opening (block : Block) (condition : Condition)
  | closing
  | label (name : String)
  | goto (name : String)
  | assign (name : String) (value : Expression)
  /-- Reads a number into a variable; the lines up to the closing one are for what is no number. -/
  | scan (name : String)
  | zero (name : String)
  | skipWord
  | returnZero

def Naming.name : Naming → String
  | assigned name => name
  | read name => name
  | declared name => name
  | jumped name => name

namespace CLine

/-- The pieces of a line, without its line feed.  Numbers are printed with the given number of
decimals. -/
def pieces (precision : Int) : CLine → List CPiece
  | includes => [.plain "#include <stdio.h>"]
  | main => [.plain "int main(void) ", .opening]
  | declaration name => [.plain "float ", .plain name, .plain ";"]
  | printText content => [.plain "printf(", .literal (content ++ "\\n"), .plain ");"]
  | printValue value =>
      [.plain "printf(", .literal ("%." ++ toString precision ++ "f" ++ "\\n"), .plain ", (float)(",
        .plain value.toC, .plain "));"]
  | opening block condition =>
      [.plain block.code, .plain " (", .plain condition.toC, .plain ") ", .opening]
  | closing => [.closing]
  | label name => [.plain name, .plain ":;"]
  | goto name => [.plain "goto ", .plain name, .plain ";"]
  | assign name value => [.plain name, .plain " = ", .plain value.toC, .plain ";"]
  | scan name =>
      [.plain "if(1 != scanf(", .literal "%f", .plain ", &", .plain name, .plain ")) ", .opening]
  | zero name => [.plain name, .plain " = 0;"]
  | skipWord => [.plain "scanf(", .literal "%*s", .plain ");"]
  | returnZero => [.plain "return 0;"]

def text (precision : Int) (line : CLine) : String :=
  CPiece.textOf (line.pieces precision)

/-- The names in a line, each with the part it plays. -/
def namings : CLine → List Naming
  | declaration name => [.assigned name]
  | printValue value => value.namings
  | opening _ condition => condition.namings
  | label name => [.declared name]
  | goto name => [.jumped name]
  | assign name value => .assigned name :: value.namings
  | scan name => [.assigned name]
  | zero name => [.assigned name]
  | _ => []

end CLine

def Action.lines : Action → List CLine
  | printText content => [.printText content]
  | printValue value => [.printValue value]
  | assign name value => [.assign name value]
  | input name => [.scan name, .zero name, .skipWord, .closing]

namespace Statement

mutual

def lines : Statement → List CLine
  | .action simple => simple.lines
  | .label name _ => [.label name]
  | .goto name _ => [.goto name]
  | .block kind condition body => .opening kind condition :: linesOf body ++ [.closing]

def linesOf : List Statement → List CLine
  | [] => []
  | statement :: rest => statement.lines ++ linesOf rest

end

end Statement

namespace CText

/-- The lines in front of the statements, with the declarations of the variables. -/
def header (tree : List Statement) : List CLine :=
  .includes :: .main :: (Naming.targets (Statement.namingsOf tree)).map .declaration

def linesOf (tree : List Statement) : List CLine :=
  header tree ++ (Statement.linesOf tree ++ [.returnZero, .closing])

def joined (precision : Int) (lines : List CLine) : String :=
  String.join (lines.map fun row => line (row.text precision))

@[simp] theorem joined_append (precision : Int) (first second : List CLine) :
    joined precision (first ++ second) = joined precision first ++ joined precision second := by
  simp [joined]

theorem joined_cons (precision : Int) (first : CLine) (others : List CLine) :
    joined precision (first :: others) =
      line (first.text precision) ++ joined precision others := by
  simp [joined]

end CText

theorem Action.toC_eq_joined (precision : Int) (action : Action) :
    action.toC precision = CText.joined precision action.lines := by
  cases action with
  | printText content =>
    rw [← String.toList_inj]
    simp [toC, lines, CText.joined, CText.line, CLine.text, CLine.pieces, CPiece.textOf,
      CPiece.text]
  | printValue value =>
    rw [← String.toList_inj]
    simp [toC, lines, CText.joined, CText.line, CLine.text, CLine.pieces, CPiece.textOf,
      CPiece.text]
  | assign name value =>
    simp [toC, lines, CText.joined, CLine.text, CLine.pieces, CPiece.textOf, CPiece.text,
      String.append_assoc]
  | input name =>
    rw [← String.toList_inj]
    simp [toC, lines, CText.joined, CText.line, CLine.text, CLine.pieces, CPiece.textOf,
      CPiece.text]

namespace Statement

mutual

theorem toC_eq_joined (precision : Int) (statement : Statement) :
    statement.toC precision = CText.joined precision statement.lines := by
  cases statement with
  | action simple => exact simple.toC_eq_joined precision
  | label name line =>
    simp [toC, lines, CText.joined, CLine.text, CLine.pieces, CPiece.textOf, CPiece.text]
  | goto name line =>
    simp [toC, lines, CText.joined, CLine.text, CLine.pieces, CPiece.textOf, CPiece.text,
      String.append_assoc]
  | block kind condition body =>
    rw [lines, CText.joined_append, CText.joined_cons, ← allToC_eq_joined precision body,
      ← String.toList_inj]
    cases kind <;>
      simp [toC, CText.joined, CText.line, CLine.text, CLine.pieces, CPiece.textOf, CPiece.text,
        Block.code]

theorem allToC_eq_joined (precision : Int) (statements : List Statement) :
    allToC precision statements = CText.joined precision (linesOf statements) := by
  cases statements with
  | nil => rfl
  | cons statement rest =>
    rw [allToC, linesOf, CText.joined_append, toC_eq_joined precision statement,
      allToC_eq_joined precision rest]

end

end Statement

/-- The text of a program is that of its lines. -/
theorem CText.ofTree_eq_joined (precision : Int) (tree : List Statement) :
    ofTree precision tree = joined precision (linesOf tree) := by
  have declared (names : List String) :
      joined precision (names.map .declaration) = String.join (names.map declaration) := by
    rw [joined, List.map_map]
    rfl
  rw [linesOf, header, joined_append, joined_append, joined_cons, joined_cons, declared,
    ← Statement.allToC_eq_joined, ofTree, declarations, ← String.toList_inj]
  simp [preamble, joined, line, CLine.text, CLine.pieces, CPiece.textOf, CPiece.text]

private theorem isInert_of_isAlpha {character : Char} (letter : character.isAlpha = true) :
    isInert character = true := by
  rw [isInert_iff]
  intro forbidden
  simp only [List.mem_cons, List.not_mem_nil, or_false] at forbidden
  rcases forbidden with rfl | rfl | rfl | rfl <;> exact absurd letter (by decide)

theorem IsName.plain {name : String} (letters : IsName name) : Plain name :=
  List.all_eq_true.mpr fun character member => isInert_of_isAlpha (letters.2 character member)

namespace Number

private theorem isPlain_of_mem_magnitudeText {mantissa : Nat} {exponent : Int} {character : Char}
    (member : character ∈ magnitudeText mantissa exponent) : IsPlain character := by
  rcases Nat.eq_zero_or_pos mantissa with rfl | positive
  · rw [magnitudeText_zero] at member
    exact isPlain_of_isDigit (isDigit_of_mem_wholeDigits member)
  · obtain ⟨number, numeral, -⟩ := exists_numeral_magnitudeText positive exponent
    exact numeral.plain character member

theorem plain_signText_append (negative : Bool) {text : List Char}
    (inert : text.all isInert = true) : Plain (String.ofList (signText negative ++ text)) := by
  rw [Plain, String.toList_ofList, List.all_append, inert]
  cases negative <;> rfl

private theorem plain_written (value : Float) : Plain (written value) := by
  unfold written
  split
  · rfl
  · exact plain_signText_append _ rfl
  · refine plain_signText_append _ (List.all_eq_true.mpr fun character member => ?_)
    have numeric : "0123456789.e+-".toList.all isInert = true := rfl
    exact List.all_eq_true.mp numeric character (isPlain_of_mem_magnitudeText member)

end Number

theorem Arithmetic.plain_text (operator : Arithmetic) : Plain operator.text := by
  cases operator <;> rfl

theorem Relation.plain_text (relation : Relation) : Plain relation.text := by
  cases relation <;> rfl

theorem plain_operation {left operator right : String} (leftPlain : Plain left)
    (operatorPlain : Plain operator) (rightPlain : Plain right) :
    Plain (left ++ " " ++ operator ++ " " ++ right) := by
  have blank : Plain " " := rfl
  exact (((leftPlain.append blank).append operatorPlain).append blank).append rightPlain

theorem Expression.plain_toC (expression : Expression)
    (letters : ∀ name, .read name ∈ expression.namings → IsName name) : Plain expression.toC := by
  induction expression with
  | number value => exact Number.plain_written value
  | read name line => exact (letters name List.mem_cons_self).plain
  | positive operand induction => exact Plain.append rfl (induction letters)
  | negative operand induction => exact Plain.append rfl (induction letters)
  | binary operator left right leftInduction rightInduction =>
    have leftPlain := leftInduction fun name member =>
      letters name (List.mem_append_left _ member)
    have rightPlain := rightInduction fun name member =>
      letters name (List.mem_append_right _ member)
    have castPlain : Plain (if operator.isMultiplicative then "(double)" else "") := by
      cases operator <;> rfl
    exact (plain_operation leftPlain operator.plain_text castPlain).append rightPlain

theorem Condition.plain_toC (condition : Condition)
    (letters : ∀ name, .read name ∈ condition.namings → IsName name) : Plain condition.toC := by
  induction condition with
  | compare relation left right =>
    have leftPlain := left.plain_toC fun name member => letters name (List.mem_append_left _ member)
    have rightPlain := right.plain_toC fun name member =>
      letters name (List.mem_append_right _ member)
    exact plain_operation leftPlain relation.plain_text rightPlain
  | chain relation left right induction =>
    have leftPlain := induction fun name member => letters name (List.mem_append_left _ member)
    have rightPlain := right.plain_toC fun name member =>
      letters name (List.mem_append_right _ member)
    exact plain_operation leftPlain relation.plain_text rightPlain

private theorem isDigit_or_eq_minus_of_mem_toString {number : Int} {character : Char}
    (member : character ∈ (toString number).toList) :
    character.isDigit = true ∨ character = '-' := by
  cases number with
  | ofNat magnitude =>
    have written : (toString (Int.ofNat magnitude)).toList = Nat.toDigits 10 magnitude :=
      String.toList_ofList
    rw [written] at member
    exact .inl (Nat.isDigit_of_mem_toDigits (by decide) (by decide) member)
  | negSucc magnitude =>
    have written : (toString (Int.negSucc magnitude)).toList =
        '-' :: Nat.toDigits 10 (magnitude + 1) := by
      change ("-" ++ String.ofList (Nat.toDigits 10 (magnitude + 1))).toList = _
      simp
    rw [written, List.mem_cons] at member
    rcases member with minus | member
    · exact .inr minus
    · exact .inl (Nat.isDigit_of_mem_toDigits (by decide) (by decide) member)

/-- The line feed at the end of what is printed is written with a backslash. -/
theorem CPiece.isSound_literal {content : String}
    (inert : ∀ character ∈ content.toList, character ≠ '"' ∧ character ≠ '\n') :
    (CPiece.literal (content ++ "\\n")).IsSound := by
  refine ⟨?_, ?_, ?_⟩
  · simpa using fun member => (inert _ member).1 rfl
  · simpa using fun member => (inert _ member).2 rfl
  · simp

theorem CPiece.isSound_decimals (precision : Int) :
    (CPiece.literal ("%." ++ toString precision ++ "f" ++ "\\n")).IsSound := by
  refine isSound_literal fun character member => ?_
  simp only [String.toList_append, List.mem_append] at member
  rcases member with (percent | decimals) | letter
  · constructor <;> rintro rfl <;> exact absurd percent (by decide)
  · constructor <;> rintro rfl <;>
      exact absurd (isDigit_or_eq_minus_of_mem_toString decimals) (by decide)
  · constructor <;> rintro rfl <;> exact absurd letter (by decide)

theorem IsContent.isSound_literal {content : String} (allowed : IsContent content) :
    (CPiece.literal (content ++ "\\n")).IsSound := by
  refine CPiece.isSound_literal fun character member => ⟨?_, ?_⟩
  · rintro rfl
    exact allowed _ member (by decide)
  · rintro rfl
    exact allowed _ member (by decide)

namespace CLine

/-- The names in a line are made of letters, and what it prints is allowed in a string. -/
structure IsProper (line : CLine) : Prop where
  names : ∀ naming ∈ line.namings, IsName naming.name
  contents : ∀ content, line = .printText content → IsContent content

variable {line : CLine} {precision : Int}

theorem IsProper.isSound (proper : line.IsProper) :
    ∀ piece ∈ line.pieces precision, piece.IsSound := by
  have reads (name : String) (member : .read name ∈ line.namings) : IsName name :=
    proper.names (.read name) member
  cases line with
  | includes | returnZero =>
    simp only [pieces, List.forall_mem_cons]
    exact ⟨rfl, List.forall_mem_nil _⟩
  | main =>
    simp only [pieces, List.forall_mem_cons]
    exact ⟨rfl, trivial, List.forall_mem_nil _⟩
  | closing =>
    simp only [pieces, List.forall_mem_cons]
    exact ⟨trivial, List.forall_mem_nil _⟩
  | skipWord =>
    have literal : (CPiece.literal "%*s").IsSound := ⟨by decide, by decide, by decide⟩
    simp only [pieces, List.forall_mem_cons]
    exact ⟨rfl, literal, rfl, List.forall_mem_nil _⟩
  | declaration name | goto name =>
    have plain := (proper.names _ List.mem_cons_self).plain
    simp only [pieces, List.forall_mem_cons]
    exact ⟨rfl, plain, rfl, List.forall_mem_nil _⟩
  | label name | zero name =>
    have plain := (proper.names _ List.mem_cons_self).plain
    simp only [pieces, List.forall_mem_cons]
    exact ⟨plain, rfl, List.forall_mem_nil _⟩
  | scan name =>
    have plain := (proper.names _ List.mem_cons_self).plain
    have literal : (CPiece.literal "%f").IsSound := ⟨by decide, by decide, by decide⟩
    simp only [pieces, List.forall_mem_cons]
    exact ⟨rfl, literal, rfl, plain, rfl, trivial, List.forall_mem_nil _⟩
  | printText content =>
    have literal := (proper.contents content rfl).isSound_literal
    simp only [pieces, List.forall_mem_cons]
    exact ⟨rfl, literal, rfl, List.forall_mem_nil _⟩
  | printValue value =>
    have plain := value.plain_toC reads
    have literal := CPiece.isSound_decimals precision
    simp only [pieces, List.forall_mem_cons]
    exact ⟨rfl, literal, rfl, plain, rfl, List.forall_mem_nil _⟩
  | opening block condition =>
    have word : Plain block.code := by cases block <;> rfl
    have plain := condition.plain_toC reads
    simp only [pieces, List.forall_mem_cons]
    exact ⟨word, rfl, plain, rfl, trivial, List.forall_mem_nil _⟩
  | assign name value =>
    have target := (proper.names _ List.mem_cons_self).plain
    have plain := value.plain_toC fun name member => reads name (List.mem_cons_of_mem _ member)
    simp only [pieces, List.forall_mem_cons]
    exact ⟨target, rfl, plain, rfl, List.forall_mem_nil _⟩

theorem IsProper.lineFeed_notMem_text (proper : line.IsProper) :
    '\n' ∉ (line.text precision).toList := by
  intro member
  obtain ⟨piece, inside, found⟩ := CPiece.mem_textOf.mp member
  refine (proper.isSound piece inside).lineFeed_notMem ?_ found
  rintro rfl
  cases line <;> simp [pieces] at inside

def label? : CLine → Option String
  | label name => some name
  | _ => none

def declaration? : CLine → Option String
  | declaration name => some name
  | _ => none

private theorem exists_label_of_notMem
    (inert : ∀ character ∈ [' ', '(', '\x7d'], character ∉ (line.text precision).toList) :
    ∃ name, line = .label name := by
  cases line with
  | label name => exact ⟨name, rfl⟩
  | includes | main | declaration | printValue | opening | goto | assign | scan | zero
  | returnZero =>
    refine absurd ?_ (inert ' ' (by decide))
    simp [text, CPiece.mem_textOf, pieces, CPiece.text]
  | printText | skipWord =>
    refine absurd ?_ (inert '(' (by decide))
    simp [text, CPiece.mem_textOf, pieces, CPiece.text]
  | closing =>
    refine absurd ?_ (inert '\x7d' (by decide))
    simp [text, CPiece.mem_textOf, pieces, CPiece.text]

private theorem exists_goto_or_declaration_of_notMem
    (inert : ∀ character ∈ ['#', '(', '\x7d', ':', '=', '0'],
      character ∉ (line.text precision).toList) :
    (∃ name, line = .goto name) ∨ ∃ name, line = .declaration name := by
  cases line with
  | goto name => exact .inl ⟨name, rfl⟩
  | declaration name => exact .inr ⟨name, rfl⟩
  | includes =>
    refine absurd ?_ (inert '#' (by decide))
    simp [text, CPiece.mem_textOf, pieces, CPiece.text]
  | main | printText | printValue | opening | scan | skipWord =>
    refine absurd ?_ (inert '(' (by decide))
    simp [text, CPiece.mem_textOf, pieces, CPiece.text]
  | closing =>
    refine absurd ?_ (inert '\x7d' (by decide))
    simp [text, CPiece.mem_textOf, pieces, CPiece.text]
  | label =>
    refine absurd ?_ (inert ':' (by decide))
    simp [text, CPiece.mem_textOf, pieces, CPiece.text]
  | assign | zero =>
    refine absurd ?_ (inert '=' (by decide))
    simp [text, CPiece.mem_textOf, pieces, CPiece.text]
  | returnZero =>
    refine absurd ?_ (inert '0' (by decide))
    simp [text, CPiece.mem_textOf, pieces, CPiece.text]

variable {name : String}

@[simp] theorem text_label : (label name).text precision = name ++ ":;" := by
  simp [text, CPiece.textOf, pieces, CPiece.text]

@[simp] theorem text_goto : (goto name).text precision = "goto " ++ (name ++ ";") := by
  simp [text, CPiece.textOf, pieces, CPiece.text]

@[simp] theorem text_declaration :
    (declaration name).text precision = "float " ++ (name ++ ";") := by
  simp [text, CPiece.textOf, pieces, CPiece.text]

/-- Only the declaration of a label reads like one. -/
theorem text_eq_label_iff (letters : IsName name) :
    line.text precision = name ++ ":;" ↔ line.label? = some name := by
  constructor
  · intro same
    have inert : ∀ character ∈ [' ', '(', '\x7d'], character ∉ (line.text precision).toList := by
      intro character mark member
      rw [same, String.toList_append, List.mem_append] at member
      simp only [List.mem_cons, List.not_mem_nil, or_false] at mark
      rcases mark with rfl | rfl | rfl <;>
        exact absurd (member.imp_left (letters.2 _)) (by decide)
    obtain ⟨other, rfl⟩ := exists_label_of_notMem inert
    rw [text_label, String.append_left_inj] at same
    exact congrArg some same
  · cases line <;> simp only [label?, reduceCtorEq, Option.some.injEq, false_imp_iff]
    rintro rfl
    exact text_label

theorem exists_goto_or_declaration_of_text {word : String} (letters : IsName name)
    (inert : word.toList.all (fun character => character ∉ ['#', '(', '\x7d', ':', '=', '0']))
    (same : line.text precision = word ++ (name ++ ";")) :
    (∃ other, line = .goto other) ∨ ∃ other, line = .declaration other := by
  have unmarked : ∀ character ∈ ['#', '(', '\x7d', ':', '=', '0'],
      character ∉ (line.text precision).toList := by
    intro character mark member
    rw [same, String.toList_append, String.toList_append, List.mem_append, List.mem_append]
      at member
    rcases member with inWord | member
    · exact of_decide_eq_true (List.all_eq_true.mp inert character inWord) mark
    · simp only [List.mem_cons, List.not_mem_nil, or_false] at mark
      rcases mark with rfl | rfl | rfl | rfl | rfl | rfl <;>
        exact absurd (member.imp_left (letters.2 _)) (by decide)
  exact exists_goto_or_declaration_of_notMem unmarked

theorem eq_goto_of_text (letters : IsName name)
    (same : line.text precision = "goto " ++ (name ++ ";")) : line = .goto name := by
  rcases exists_goto_or_declaration_of_text letters rfl same with
    ⟨other, rfl⟩ | ⟨other, rfl⟩
  · rw [text_goto, String.append_right_inj, String.append_left_inj] at same
    rw [same]
  · have heads := congrArg (·.toList.head?) same
    simp [text_declaration] at heads

/-- Only the declaration of a variable reads like one. -/
theorem text_eq_declaration_iff (letters : IsName name) :
    line.text precision = "float " ++ (name ++ ";") ↔ line.declaration? = some name := by
  constructor
  · intro same
    rcases exists_goto_or_declaration_of_text letters rfl same with
      ⟨other, rfl⟩ | ⟨other, rfl⟩
    · have heads := congrArg (·.toList.head?) same
      simp [text_goto] at heads
    · rw [text_declaration, String.append_right_inj, String.append_left_inj] at same
      exact congrArg some same
  · cases line <;> simp only [declaration?, reduceCtorEq, Option.some.injEq, false_imp_iff]
    rintro rfl
    exact text_declaration

/-- Rows are counted by what their lines declare if that can be told from the text of a line. -/
theorem count_text {declared? : CLine → Option String} {row : String}
    (told : ∀ line : CLine, line.text precision = row ↔ declared? line = some name)
    (lines : List CLine) :
    (lines.map (text precision)).count row = (lines.filterMap declared?).count name := by
  induction lines with
  | nil => rfl
  | cons line rest induction =>
    rw [List.map_cons, List.count_cons, induction, List.filterMap_cons]
    cases found : declared? line with
    | none =>
      have other : line.text precision ≠ row := by
        rw [Ne, told line, found]
        simp
      simp [other]
    | some other =>
      have same : line.text precision = row ↔ other = name := by
        rw [told line, found, Option.some.injEq]
      simp [List.count_cons, same]

end CLine

theorem Naming.nodup_targets (namings : List Naming) : (targets namings).Nodup := by
  induction namings using List.reverseRecOn with
  | nil => simp [targets]
  | append_singleton namings naming induction =>
    cases naming with
    | assigned name =>
      rw [targets_append_assigned]
      split
      · exact induction
      · next fresh =>
        rw [← List.concat_eq_append]
        exact induction.concat (mt mem_targets.mp fresh)
    | _ =>
      rw [targets_append_other rfl]
      exact induction

end TeenyBasic
