import TeenyBasic.Proofs.CStructure
import TeenyBasic.Proofs.CWords

/-!
# The parts of C programs

The C text of a program is put together from fixed texts, literals, the numbers of the program and
its names.  Something that ends a word stands behind every number and every name, so a reader of C
finds the words of the parts, one part after the other (`CPart.wordsOf_textOf`).
-/

namespace TeenyBasic

inductive CPart
  | fixed (text : String)
  | literal (content : String)
  | name (naming : Naming)
  | number (value : Float)

namespace CPart

def text : CPart → String
  | fixed text => text
  | literal content => "\"" ++ content ++ "\""
  | name naming => naming.name
  | number value => Number.written value

def textOf (parts : List CPart) : String :=
  String.join (parts.map text)

def number? : CPart → Option Float
  | number value => some value
  | _ => none

def naming? : CPart → Option Naming
  | name naming => some naming
  | _ => none

/-- The words that a reader of C finds in a part. -/
def words (part : CPart) : List CWord :=
  CWord.wordsOf part.text

@[simp] theorem textOf_nil : textOf [] = "" :=
  rfl

@[simp] theorem textOf_cons (part : CPart) (rest : List CPart) :
    textOf (part :: rest) = part.text ++ textOf rest := by
  simp [textOf]

@[simp] theorem textOf_append (first second : List CPart) :
    textOf (first ++ second) = textOf first ++ textOf second := by
  simp [textOf]

end CPart

def Expression.parts : Expression → List CPart
  | number value => [.number value]
  | read name _ => [.name (.read name)]
  | positive operand => .fixed "+" :: operand.parts
  | negative operand => .fixed "-" :: operand.parts
  | binary operator left right =>
      left.parts ++ .fixed (" " ++ operator.text ++ " " ++
        (if operator.isMultiplicative then "(double)" else "")) :: right.parts

def Condition.parts : Condition → List CPart
  | compare relation left right =>
      left.parts ++ .fixed (" " ++ relation.text ++ " ") :: right.parts
  | chain relation left right => left.parts ++ .fixed (" " ++ relation.text ++ " ") :: right.parts

/-- The parts of a line, without its line feed.  Numbers are printed with the given number of
decimals. -/
def CLine.parts (precision : Int) : CLine → List CPart
  | includes => [.fixed "#include <stdio.h>"]
  | main => [.fixed "int main(void) \x7b"]
  | declaration name => [.fixed "float ", .name (.assigned name), .fixed ";"]
  | printText content => [.fixed "printf(", .literal (content ++ "\\n"), .fixed ");"]
  | printValue value =>
      .fixed "printf(" :: .literal ("%." ++ toString precision ++ "f" ++ "\\n") ::
        .fixed ", (float)(" :: (value.parts ++ [.fixed "));"])
  | opening block condition =>
      .fixed (block.code ++ " (") :: (condition.parts ++ [.fixed ") \x7b"])
  | closing => [.fixed "\x7d"]
  | label name => [.name (.declared name), .fixed ":;"]
  | goto name => [.fixed "goto ", .name (.jumped name), .fixed ";"]
  | assign name value =>
      .name (.assigned name) :: .fixed " = " :: (value.parts ++ [.fixed ";"])
  | scan name =>
      [.fixed "if(1 != scanf(", .literal "%f", .fixed ", &", .name (.assigned name),
        .fixed ")) \x7b"]
  | zero name => [.name (.assigned name), .fixed " = 0;"]
  | skipWord => [.fixed "scanf(", .literal "%*s", .fixed ");"]
  | returnZero => [.fixed "return 0;"]

namespace CText

def partsOf (precision : Int) (lines : List CLine) : List CPart :=
  lines.flatMap fun row => row.parts precision ++ [.fixed "\n"]

def partsOfTree (precision : Int) (tree : List Statement) : List CPart :=
  partsOf precision (linesOf tree)

end CText

open CPart (textOf textOf_nil textOf_cons textOf_append)

@[simp] theorem Expression.textOf_parts (expression : Expression) :
    textOf expression.parts = expression.toC := by
  induction expression with
  | number value | read name line => simp [parts, textOf, CPart.text, toC, Naming.name]
  | positive operand induction | negative operand induction =>
    rw [parts, textOf_cons, induction]
    rfl
  | binary operator left right leftInduction rightInduction =>
    rw [parts, textOf_append, textOf_cons, leftInduction, rightInduction]
    simp [CPart.text, toC, String.append_assoc]

@[simp] theorem Condition.textOf_parts (condition : Condition) :
    textOf condition.parts = condition.toC := by
  induction condition with
  | compare relation left right =>
    rw [parts, textOf_append, textOf_cons, left.textOf_parts, right.textOf_parts]
    simp [CPart.text, toC, String.append_assoc]
  | chain relation left right induction =>
    rw [parts, textOf_append, textOf_cons, induction, right.textOf_parts]
    simp [CPart.text, toC, String.append_assoc]

@[simp] theorem CLine.textOf_parts (precision : Int) (line : CLine) :
    textOf (line.parts precision) = line.text precision := by
  rw [← String.toList_inj]
  cases line with
  | printValue value =>
    simp [parts, textOf_cons, textOf_append, textOf_nil, value.textOf_parts, text, pieces,
      CPiece.textOf, CPiece.text, CPart.text]
  | opening block condition =>
    simp [parts, textOf_cons, textOf_append, textOf_nil, condition.textOf_parts, text, pieces,
      CPiece.textOf, CPiece.text, CPart.text]
  | assign name value =>
    simp [parts, textOf_cons, textOf_append, textOf_nil, value.textOf_parts, text, pieces,
      CPiece.textOf, CPiece.text, CPart.text, Naming.name]
  | _ => simp [parts, textOf, text, pieces, CPiece.textOf, CPiece.text, CPart.text, Naming.name]

@[simp] theorem CText.textOf_partsOf (precision : Int) (lines : List CLine) :
    textOf (partsOf precision lines) = joined precision lines := by
  induction lines with
  | nil => rfl
  | cons row rest induction =>
    rw [joined_cons, ← induction, ← row.textOf_parts precision, partsOf, List.flatMap_cons,
      textOf_append, textOf_append]
    rfl

namespace CPart

open CWord (Begun)
open CWord.Begun (isSeparator)

/-- A reader of C is in no word behind the part, unless the part is a word itself. -/
def IsLexed : CPart → Prop
  | fixed text => Begun.nothing.behind text.toList = .nothing
  | literal content => '"' ∉ content.toList ∧ content.toList.getLast? ≠ some '\\'
  | name naming => IsName naming.name
  | number value => ∃ decimal : Number.Decimal, value = decimal.toFloat false

def isWord : CPart → Bool
  | name _ => true
  | number _ => true
  | _ => false

/-- Whether the part ends the name or constant in front of it. -/
def separates : CPart → Bool
  | fixed text => text.toList.head?.any isSeparator
  | _ => false

/-- Nothing but a separator follows a name or a number. -/
def Spaced (parts : List CPart) : Prop :=
  parts.IsChain fun part next => part.isWord = true → next.separates = true

variable {part : CPart} {front rest : List CPart} {text : String}

theorem spaced_singleton (part : CPart) : Spaced [part] :=
  List.isChain_singleton part

theorem spaced_fixed_cons (spaced : Spaced rest) : Spaced (.fixed text :: rest) :=
  spaced.cons fun _ _ word => absurd word Bool.false_ne_true

theorem spaced_literal_cons (spaced : Spaced rest) : Spaced (.literal text :: rest) :=
  spaced.cons fun _ _ word => absurd word Bool.false_ne_true

/-- A separator may stand behind everything. -/
theorem Spaced.append_fixed (spaced : Spaced front)
    (separator : (fixed text).separates = true) (spaced' : Spaced rest) :
    Spaced (front ++ .fixed text :: rest) := by
  refine List.isChain_append.mpr ⟨spaced, spaced_fixed_cons spaced', ?_⟩
  rintro last - next first -
  obtain rfl : fixed text = next := Option.some.inj first
  exact separator

theorem spaced_name_cons (naming : Naming) (separator : (fixed text).separates = true)
    (spaced : Spaced rest) : Spaced (.name naming :: .fixed text :: rest) :=
  (spaced_singleton (name naming)).append_fixed separator spaced

/-- A number is written as a constant that rounds to it, or it is infinite. -/
theorem written_cases (decimal : Number.Decimal) :
    (decimal.toFloat false).isFinite = false ∧
        (Number.written (decimal.toFloat false)).toList = "Infinity".toList ∨
      (decimal.toFloat false).isFinite = true ∧ ∃ shape : Number.Shape,
        (Number.written (decimal.toFloat false)).toList = shape.text ∧
        ∃ mantissa exponent,
          Number.parts (decimal.toFloat false) = .finite false mantissa exponent ∧
          Number.RoundsTo shape.value mantissa exponent := by
  rcases decimal.parts_toFloat with infinite | ⟨mantissa, exponent, stored, finite⟩
  · refine .inl ⟨?_, ?_⟩
    · by_contra finite
      obtain ⟨mantissa, exponent, -, parts_eq⟩ :=
        Number.parts_of_isFinite (Bool.not_eq_false _ ▸ finite)
      rw [parts_eq] at infinite
      cases infinite
    · rw [Number.written, infinite]
      rfl
  · obtain ⟨shape, text_eq, -⟩ := Number.exists_fits_magnitudeText stored
    refine .inr ⟨Number.isFinite_of_parts finite, shape, ?_, mantissa, exponent, finite,
      shape.roundsTo_of_text_eq text_eq⟩
    rw [Number.written, finite, String.toList_ofList, text_eq]
    rfl

/-- The word that a reader is in behind a name or a number. -/
theorem IsLexed.exists_reaches (lexed : part.IsLexed) (word : part.isWord = true) :
    ∃ begun : Begun, Begun.nothing.Reaches part.text.toList begun ∧
      ∀ character rest, isSeparator character = true → begun.EndsBefore (character :: rest) := by
  cases part with
  | fixed | literal => cases word
  | name naming =>
    exact ⟨_, Begun.reaches_of_isAlpha lexed.1 lexed.2,
      fun _ rest separator => Begun.endsBefore_name separator rest _⟩
  | number value =>
    obtain ⟨decimal, rfl⟩ := lexed
    rw [text]
    rcases written_cases decimal with ⟨-, text_eq⟩ | ⟨-, shape, text_eq, -⟩
    · rw [text_eq]
      exact ⟨_, Begun.reaches_of_isAlpha (by decide) (List.all_eq_true.mp rfl),
        fun _ rest separator => Begun.endsBefore_name separator rest _⟩
    · rw [text_eq]
      exact ⟨_, Begun.reaches_shape shape,
        fun _ rest separator => Begun.endsBefore_constant separator rest _⟩

private theorem IsLexed.endsBefore (lexed : part.IsLexed) (spaced : Spaced (part :: rest)) :
    (Begun.nothing.behind part.text.toList).EndsBefore (textOf rest).toList := by
  cases word : part.isWord with
  | true =>
    obtain ⟨begun, reaches, ends⟩ := lexed.exists_reaches word
    rw [reaches.behind_eq]
    cases rest with
    | nil =>
      intro character next
      cases next
    | cons next rest =>
      have separates := (List.isChain_cons_cons.mp spaced).1 word
      cases next with
      | literal | name | number => cases separates
      | fixed text =>
        rw [textOf_cons, String.toList_append, CPart.text]
        cases text_eq : text.toList with
        | nil =>
          rw [CPart.separates, text_eq] at separates
          cases separates
        | cons character tail =>
          rw [CPart.separates, text_eq] at separates
          exact ends character _ separates
  | false =>
    have closed : Begun.nothing.behind part.text.toList = .nothing := by
      cases part with
      | fixed text => exact lexed
      | literal content =>
        have quoted := Begun.behind_quoted lexed.1 lexed.2
        rw [text, String.toList_append, String.toList_append]
        exact quoted
      | name | number => cases word
    rw [closed]
    exact Begun.endsBefore_nothing _

/-- A reader of C finds the words of the parts, one after the other. -/
theorem wordsOf_textOf {parts : List CPart} (lexed : ∀ part ∈ parts, part.IsLexed)
    (spaced : Spaced parts) : CWord.wordsOf (textOf parts) = parts.flatMap words := by
  induction parts with
  | nil => rfl
  | cons part rest induction =>
    obtain ⟨here, later⟩ := List.forall_mem_cons.mp lexed
    rw [CWord.wordsOf, textOf_cons, String.toList_append,
      Begun.wordsOf_append (here.endsBefore spaced), List.flatMap_cons]
    exact congrArg (part.words ++ ·) (induction later spaced.tail)

end CPart

namespace Expression

theorem spaced_parts (expression : Expression) : CPart.Spaced expression.parts := by
  induction expression with
  | number value | read name line => exact CPart.spaced_singleton _
  | positive operand induction | negative operand induction =>
    exact CPart.spaced_fixed_cons induction
  | binary operator left right leftInduction rightInduction =>
    refine leftInduction.append_fixed ?_ rightInduction
    cases operator <;> rfl

theorem isLexed_parts (expression : Expression) :
    ∀ part ∈ expression.parts, part.isWord = false → part.IsLexed := by
  induction expression with
  | number value | read name line =>
    rintro part member noWord
    obtain rfl := List.mem_singleton.mp member
    cases noWord
  | positive operand induction | negative operand induction =>
    exact List.forall_mem_cons.mpr ⟨fun _ => rfl, induction⟩
  | binary operator left right leftInduction rightInduction =>
    refine List.forall_mem_append.mpr
      ⟨leftInduction, List.forall_mem_cons.mpr ⟨fun _ => ?_, rightInduction⟩⟩
    cases operator <;> rfl

@[simp] theorem filterMap_naming?_parts (expression : Expression) :
    expression.parts.filterMap CPart.naming? = expression.namings := by
  induction expression with
  | number value | read name line => rfl
  | positive operand induction | negative operand induction => exact induction
  | binary operator left right leftInduction rightInduction =>
    rw [parts, List.filterMap_append, leftInduction, List.filterMap_cons_none rfl, rightInduction]
    rfl

end Expression

namespace Condition

theorem spaced_parts (condition : Condition) : CPart.Spaced condition.parts := by
  induction condition with
  | compare relation left right =>
    refine left.spaced_parts.append_fixed ?_ right.spaced_parts
    cases relation <;> rfl
  | chain relation left right induction =>
    refine induction.append_fixed ?_ right.spaced_parts
    cases relation <;> rfl

theorem isLexed_parts (condition : Condition) :
    ∀ part ∈ condition.parts, part.isWord = false → part.IsLexed := by
  induction condition with
  | compare relation left right =>
    refine List.forall_mem_append.mpr
      ⟨left.isLexed_parts, List.forall_mem_cons.mpr ⟨fun _ => ?_, right.isLexed_parts⟩⟩
    cases relation <;> rfl
  | chain relation left right induction =>
    refine List.forall_mem_append.mpr
      ⟨induction, List.forall_mem_cons.mpr ⟨fun _ => ?_, right.isLexed_parts⟩⟩
    cases relation <;> rfl

@[simp] theorem filterMap_naming?_parts (condition : Condition) :
    condition.parts.filterMap CPart.naming? = condition.namings := by
  induction condition with
  | compare relation left right =>
    rw [parts, List.filterMap_append, left.filterMap_naming?_parts, List.filterMap_cons_none rfl,
      right.filterMap_naming?_parts]
    rfl
  | chain relation left right induction =>
    rw [parts, List.filterMap_append, induction, List.filterMap_cons_none rfl,
      right.filterMap_naming?_parts]
    rfl

end Condition

namespace CLine

variable (precision : Int)

theorem spaced_parts (line : CLine) : CPart.Spaced (line.parts precision) := by
  have last : CPart.Spaced [] := List.isChain_nil
  cases line with
  | printValue value =>
    exact CPart.spaced_fixed_cons (CPart.spaced_literal_cons
      (CPart.spaced_fixed_cons (value.spaced_parts.append_fixed rfl last)))
  | opening block condition =>
    exact CPart.spaced_fixed_cons (condition.spaced_parts.append_fixed rfl last)
  | assign name value =>
    exact CPart.spaced_name_cons _ rfl (value.spaced_parts.append_fixed rfl last)
  | label name | zero name => exact CPart.spaced_name_cons _ rfl last
  | declaration name | goto name =>
    exact CPart.spaced_fixed_cons (CPart.spaced_name_cons _ rfl last)
  | scan name =>
    exact CPart.spaced_fixed_cons (CPart.spaced_literal_cons
      (CPart.spaced_fixed_cons (CPart.spaced_name_cons _ rfl last)))
  | printText content =>
    exact CPart.spaced_fixed_cons (CPart.spaced_literal_cons (CPart.spaced_fixed_cons last))
  | skipWord =>
    exact CPart.spaced_fixed_cons (CPart.spaced_literal_cons (CPart.spaced_fixed_cons last))
  | includes | main | closing | returnZero => exact CPart.spaced_fixed_cons last

theorem isLexed_parts {line : CLine} (proper : line.IsProper) :
    ∀ part ∈ line.parts precision, part.isWord = false → part.IsLexed := by
  have fixed {text : String} (closed : (CPart.fixed text).IsLexed) :
      (CPart.fixed text).isWord = false → (CPart.fixed text).IsLexed := fun _ => closed
  have literal {content : String} (sound : (CPiece.literal content).IsSound) :
      (CPart.literal content).isWord = false → (CPart.literal content).IsLexed :=
    fun _ => ⟨sound.1, sound.2.2⟩
  have name {naming : Naming} :
      (CPart.name naming).isWord = false → (CPart.name naming).IsLexed := nofun
  have last := List.forall_mem_nil fun part : CPart => part.isWord = false → part.IsLexed
  cases line with
  | includes | main | closing | returnZero => exact List.forall_mem_cons.mpr ⟨fixed rfl, last⟩
  | declaration other | goto other =>
    simp only [parts, List.forall_mem_cons]
    exact ⟨fixed rfl, name, fixed rfl, last⟩
  | label other | zero other =>
    simp only [parts, List.forall_mem_cons]
    exact ⟨name, fixed rfl, last⟩
  | scan other =>
    have sound : (CPiece.literal "%f").IsSound := ⟨by decide, by decide, by decide⟩
    simp only [parts, List.forall_mem_cons]
    exact ⟨fixed rfl, literal sound, fixed rfl, name, fixed rfl, last⟩
  | skipWord =>
    have sound : (CPiece.literal "%*s").IsSound := ⟨by decide, by decide, by decide⟩
    simp only [parts, List.forall_mem_cons]
    exact ⟨fixed rfl, literal sound, fixed rfl, last⟩
  | printText content =>
    have sound := (proper.contents content rfl).isSound_literal
    simp only [parts, List.forall_mem_cons]
    exact ⟨fixed rfl, literal sound, fixed rfl, last⟩
  | printValue value =>
    have sound := CPiece.isSound_decimals precision
    simp only [parts, List.forall_mem_cons, List.forall_mem_append]
    exact ⟨fixed rfl, literal sound, fixed rfl, value.isLexed_parts, fixed rfl, last⟩
  | opening block condition =>
    have word : (CPart.fixed (block.code ++ " (")).IsLexed := by cases block <;> rfl
    simp only [parts, List.forall_mem_cons, List.forall_mem_append]
    exact ⟨fixed word, condition.isLexed_parts, fixed rfl, last⟩
  | assign other value =>
    simp only [parts, List.forall_mem_cons, List.forall_mem_append]
    exact ⟨name, fixed rfl, value.isLexed_parts, fixed rfl, last⟩

@[simp] theorem filterMap_naming?_parts (line : CLine) :
    (line.parts precision).filterMap CPart.naming? = line.namings := by
  cases line with
  | printValue value =>
    simp [parts, CPart.naming?, namings, List.filterMap_cons, value.filterMap_naming?_parts]
  | opening block condition =>
    simp [parts, CPart.naming?, namings, List.filterMap_cons, condition.filterMap_naming?_parts]
  | assign name value =>
    simp [parts, CPart.naming?, namings, List.filterMap_cons, value.filterMap_naming?_parts]
  | _ => rfl

end CLine

namespace CText

theorem spaced_partsOf (precision : Int) (lines : List CLine) :
    CPart.Spaced (partsOf precision lines) := by
  induction lines with
  | nil => exact List.isChain_nil
  | cons row rest induction =>
    rw [partsOf, List.flatMap_cons, List.append_assoc]
    exact (row.spaced_parts precision).append_fixed rfl induction

theorem mem_partsOf_iff {precision : Int} {lines : List CLine} {part : CPart} :
    part ∈ partsOf precision lines ↔
      ∃ row ∈ lines, part ∈ row.parts precision ∨ part = .fixed "\n" := by
  simp [partsOf, List.mem_flatMap]

@[simp] theorem name_mem_partsOf_iff {precision : Int} {lines : List CLine} {naming : Naming} :
    .name naming ∈ partsOf precision lines ↔ ∃ row ∈ lines, naming ∈ row.namings := by
  have inRow (row : CLine) :
      .name naming ∈ row.parts precision ↔ naming ∈ row.namings := by
    rw [← row.filterMap_naming?_parts precision, List.mem_filterMap]
    constructor
    · intro member
      exact ⟨_, member, rfl⟩
    · rintro ⟨part, member, found⟩
      cases part with
      | name other =>
        cases found
        exact member
      | _ => cases found
  simp [mem_partsOf_iff, inRow]

@[simp] theorem partsOf_append (precision : Int) (first second : List CLine) :
    partsOf precision (first ++ second) = partsOf precision first ++ partsOf precision second :=
  List.flatMap_append

end CText

end TeenyBasic
