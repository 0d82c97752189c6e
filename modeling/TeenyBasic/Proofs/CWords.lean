import TeenyBasic.Proofs.CLines
import TeenyBasic.Proofs.NumberShapes

/-!
# The words of C text

C text is read word by word: names, constants, literals and single marks, each as long as it can be.
A word ends before a character that does not go on with it, so the words of two texts one behind the
other are those of the first and those of the second if the first does not go on with the last
word (`CWord.wordsOf_append`).

Constants that begin with a point, literals of characters and comments are not told apart from
marks.
-/

namespace TeenyBasic

inductive CWord
  | name (text : List Char)
  | constant (text : List Char)
  | literal (content : List Char)
  | mark (character : Char)
  deriving DecidableEq, Repr

namespace CWord

def keywords : List String :=
  ["auto", "break", "case", "char", "const", "continue", "default", "do", "double", "else", "enum",
    "extern", "float", "for", "goto", "if", "inline", "int", "long", "register", "restrict",
    "return", "short", "signed", "sizeof", "static", "struct", "switch", "typedef", "union",
    "unsigned", "void", "volatile", "while", "_Alignas", "_Alignof", "_Atomic", "_Bool", "_Complex",
    "_Generic", "_Imaginary", "_Noreturn", "_Static_assert", "_Thread_local"]

def functions : List String :=
  ["printf", "scanf"]

/-- The name can stand for a variable or a label. -/
def IsFree (name : String) : Prop :=
  name ∉ keywords ∧ name ∉ functions

instance (name : String) : Decidable (IsFree name) :=
  inferInstanceAs (Decidable (name ∉ keywords ∧ name ∉ functions))

/-- The word that a reader is in. -/
inductive Begun
  | nothing
  | name (text : List Char)
  | constant (text : List Char)
  | literal (content : List Char)

def isNamePart (character : Char) : Bool :=
  character.isAlphanum || character = '_'

/-- Whether a character goes on with a constant; a sign does so only behind the letter of an
exponent. -/
def isConstantPart (text : List Char) (character : Char) : Bool :=
  isNamePart character || character = '.' ||
    (['+', '-'].contains character && ['e', 'E', 'p', 'P'].any (text.getLast? = some ·))

namespace Begun

def word : Begun → List CWord
  | nothing => []
  | name text => [.name text]
  | constant text => [.constant text]
  | literal content => [.literal content]

def begin (character : Char) : List CWord × Begun :=
  if character.isAlpha || character = '_' then ([], name [character])
  else if character.isDigit then ([], constant [character])
  else if character = '"' then ([], literal [])
  else if character.isWhitespace then ([], nothing)
  else ([.mark character], nothing)

/-- Reads one character: the words that it ends, and the word behind it. -/
def read (begun : Begun) (character : Char) : List CWord × Begun :=
  match begun with
  | nothing => begin character
  | name text =>
      if isNamePart character then ([], name (text ++ [character]))
      else (begun.word ++ (begin character).1, (begin character).2)
  | constant text =>
      if isConstantPart text character then ([], constant (text ++ [character]))
      else (begun.word ++ (begin character).1, (begin character).2)
  | literal content =>
      if character = '"' ∧ content.getLast? ≠ some '\\' then (begun.word, nothing)
      else ([], literal (content ++ [character]))

def wordsOf (begun : Begun) : List Char → List CWord
  | [] => begun.word
  | character :: rest => (begun.read character).1 ++ (begun.read character).2.wordsOf rest

def behind (begun : Begun) (text : List Char) : Begun :=
  text.foldl (fun begun character => (begun.read character).2) begun

def EndsBefore (begun : Begun) (text : List Char) : Prop :=
  ∀ character ∈ text.head?,
    begun.read character = (begun.word ++ (begin character).1, (begin character).2)

theorem endsBefore_nothing (text : List Char) : nothing.EndsBefore text :=
  fun _ _ => rfl

private theorem wordsOf_of_endsBefore {begun : Begun} {text : List Char}
    (ends : begun.EndsBefore text) :
    begun.wordsOf text = begun.word ++ nothing.wordsOf text := by
  cases text with
  | nil => exact (List.append_nil _).symm
  | cons character rest =>
    have read_eq := ends character rfl
    rw [wordsOf, read_eq, List.append_assoc]
    rfl

/-- Words are read as if the text behind them were read alone, unless the last one goes on. -/
theorem wordsOf_append {begun : Begun} {first second : List Char}
    (ends : (begun.behind first).EndsBefore second) :
    begun.wordsOf (first ++ second) = begun.wordsOf first ++ nothing.wordsOf second := by
  induction first generalizing begun with
  | nil => exact wordsOf_of_endsBefore ends
  | cons character rest induction =>
    rw [List.cons_append, wordsOf, wordsOf, induction ends, List.append_assoc]

@[simp] theorem behind_append (begun : Begun) (first second : List Char) :
    begun.behind (first ++ second) = (begun.behind first).behind second :=
  List.foldl_append

end Begun

def wordsOf (text : String) : List CWord :=
  Begun.nothing.wordsOf text.toList

namespace Begun

/-- Behind the text the reader is in another word and has ended none. -/
structure Reaches (begun : Begun) (text : List Char) (longer : Begun) : Prop where
  behind_eq : begun.behind text = longer
  wordsOf_eq : begun.wordsOf text = longer.word

variable {begun middle longer : Begun} {first second : List Char}

theorem reaches_nil (begun : Begun) : begun.Reaches [] begun :=
  ⟨rfl, rfl⟩

theorem Reaches.cons {character : Char} (read_eq : begun.read character = ([], middle))
    (rest : middle.Reaches second longer) : begun.Reaches (character :: second) longer where
  behind_eq := by
    rw [behind, List.foldl_cons, read_eq]
    exact rest.behind_eq
  wordsOf_eq := by
    rw [wordsOf, read_eq]
    exact rest.wordsOf_eq

private theorem reaches_name {rest : List Char}
    (inside : ∀ character ∈ rest, isNamePart character = true)
    (text : List Char) : (name text).Reaches rest (name (text ++ rest)) := by
  induction rest generalizing text with
  | nil =>
    rw [List.append_nil]
    exact reaches_nil _
  | cons character rest induction =>
    obtain ⟨here, later⟩ := List.forall_mem_cons.mp inside
    have read_eq : (name text).read character = ([], name (text ++ [character])) := by
      rw [read, here]
      rfl
    have longer := Reaches.cons read_eq (induction later (text ++ [character]))
    rwa [List.append_assoc] at longer

theorem reaches_constant {rest : List Char}
    (inside : ∀ character ∈ rest, character.isDigit = true) {text tail : List Char}
    {longer : Begun} (behind : (constant (text ++ rest)).Reaches tail longer) :
    (constant text).Reaches (rest ++ tail) longer := by
  induction rest generalizing text with
  | nil => rwa [List.append_nil] at behind
  | cons character rest induction =>
    obtain ⟨here, later⟩ := List.forall_mem_cons.mp inside
    have read_eq : (constant text).read character = ([], constant (text ++ [character])) := by
      simp [read, isConstantPart, isNamePart, Char.isAlphanum, here]
    refine Reaches.cons read_eq (induction later ?_)
    rwa [List.append_assoc]

private theorem isAlpha_eq_false_of_isDigit {character : Char} (digit : character.isDigit = true) :
    character.isAlpha = false ∧ character ≠ '_' := by
  have bounds : 48 ≤ character.toNat ∧ character.toNat ≤ 57 := Char.isDigit_iff_toNat.mp digit
  have code : character.toNat ∈ List.range' 48 10 := by
    rw [List.mem_range'_1]
    omega
  have all : (List.range' 48 10).all fun number =>
      decide ((Char.ofNat number).isAlpha = false ∧ Char.ofNat number ≠ '_') := rfl
  have here := of_decide_eq_true (List.all_eq_true.mp all _ code)
  rwa [Char.ofNat_toNat] at here

/-- Letters make a name. -/
theorem reaches_of_isAlpha {text : List Char} (filled : text ≠ [])
    (letters : ∀ character ∈ text, character.isAlpha = true) :
    nothing.Reaches text (name text) := by
  cases text with
  | nil => exact absurd rfl filled
  | cons first rest =>
    obtain ⟨here, later⟩ := List.forall_mem_cons.mp letters
    have begin_eq : nothing.read first = ([], name [first]) := by
      rw [read, begin, here]
      rfl
    refine Reaches.cons begin_eq (reaches_name (fun character member => ?_) [first])
    rw [isNamePart, Char.isAlphanum, later character member]
    rfl

section Shapes

variable (shape : Number.Shape) (text : List Char)

theorem reaches_exponentText :
    (constant text).Reaches (Number.Shape.exponentText shape.exponent)
      (constant (text ++ Number.Shape.exponentText shape.exponent)) := by
  cases exponent_eq : shape.exponent with
  | none =>
    rw [Number.Shape.exponentText, List.append_nil]
    exact reaches_nil _
  | some part =>
    obtain ⟨negative, digits⟩ := part
    have inside := (shape.unpadded negative digits exponent_eq).1.isDigit
    have letter : (constant text).read 'e' = ([], constant (text ++ ['e'])) := rfl
    have sign : (constant (text ++ ['e'])).read (if negative then '-' else '+') =
        ([], constant (text ++ ['e'] ++ [if negative then '-' else '+'])) := by
      cases negative <;> simp [read, isConstantPart]
    have rest := reaches_constant inside
      (reaches_nil (constant (text ++ ['e'] ++ [if negative then '-' else '+'] ++ digits)))
    rw [List.append_nil] at rest
    have whole := Reaches.cons letter (Reaches.cons sign rest)
    rwa [List.append_assoc, List.append_assoc] at whole

private theorem reaches_behindWhole :
    (constant text).Reaches
      ((if shape.fraction = [] then [] else '.' :: shape.fraction) ++
        Number.Shape.exponentText shape.exponent)
      (constant (text ++ ((if shape.fraction = [] then [] else '.' :: shape.fraction) ++
        Number.Shape.exponentText shape.exponent))) := by
  split
  · exact reaches_exponentText shape text
  · have point : (constant text).read '.' = ([], constant (text ++ ['.'])) := rfl
    have rest := reaches_constant shape.isDigit
      (reaches_exponentText shape (text ++ ['.'] ++ shape.fraction))
    have whole := Reaches.cons point rest
    rwa [List.append_assoc, List.append_assoc] at whole

/-- The text of a shape is a constant. -/
theorem reaches_shape : nothing.Reaches shape.text (constant shape.text) := by
  have inside := shape.isWholeText.isDigit
  unfold Number.Shape.text
  cases whole_eq : shape.whole with
  | nil => exact absurd whole_eq shape.isWholeText.ne_nil
  | cons first digits =>
    rw [whole_eq] at inside
    obtain ⟨here, later⟩ := List.forall_mem_cons.mp inside
    obtain ⟨noLetter, noLine⟩ := isAlpha_eq_false_of_isDigit here
    have begin_eq : nothing.read first = ([], constant [first]) := by
      rw [read, begin, noLetter, decide_eq_false noLine, here]
      rfl
    have rest := reaches_constant later (reaches_behindWhole shape ([first] ++ digits))
    have whole := Reaches.cons begin_eq rest
    rwa [List.append_assoc]

end Shapes

/-- Whether a character ends every name and every constant in front of it. -/
def isSeparator (character : Char) : Bool :=
  !isNamePart character && !(['.', '+', '-'].contains character)

section Separators

variable {character : Char} (separates : isSeparator character = true) (rest : List Char)
include separates

theorem endsBefore_name (text : List Char) : (name text).EndsBefore (character :: rest) := by
  rintro other next
  obtain rfl : character = other := Option.some.inj next
  rw [isSeparator, Bool.and_eq_true, Bool.not_eq_true'] at separates
  rw [read, if_neg (Bool.eq_false_iff.mp separates.1)]

theorem endsBefore_constant (text : List Char) :
    (constant text).EndsBefore (character :: rest) := by
  rintro other next
  obtain rfl : character = other := Option.some.inj next
  have ends : isConstantPart text character = false := by
    simp only [isSeparator, Bool.and_eq_true, Bool.not_eq_true', List.contains_eq_mem,
      List.mem_cons, List.not_mem_nil, or_false, decide_eq_false_iff_not, not_or] at separates
    simp [isConstantPart, separates]
  rw [read, if_neg (Bool.eq_false_iff.mp ends)]

end Separators

private theorem behind_literal {content : List Char} (noQuote : '"' ∉ content) (begun : List Char) :
    (literal begun).behind content = literal (begun ++ content) := by
  induction content generalizing begun with
  | nil =>
    rw [List.append_nil]
    rfl
  | cons character content induction =>
    have other : character ≠ '"' := fun equal => noQuote (equal ▸ List.mem_cons_self)
    have read_eq : (literal begun).read character = ([], literal (begun ++ [character])) := by
      rw [read, if_neg fun quote => other quote.1]
    have rest := induction (fun member => noQuote (List.mem_cons_of_mem _ member))
      (begun ++ [character])
    rw [behind, List.foldl_cons, read_eq]
    rw [List.append_assoc] at rest
    exact rest

/-- A literal ends at its second quote. -/
theorem behind_quoted {content : List Char} (noQuote : '"' ∉ content)
    (ended : content.getLast? ≠ some '\\') :
    nothing.behind ('"' :: (content ++ ['"'])) = nothing := by
  have opened : nothing.behind ['"'] = literal [] := rfl
  rw [← List.singleton_append, behind_append, opened, behind_append, behind_literal noQuote,
    List.nil_append, behind, List.foldl_cons, read, if_pos ⟨rfl, ended⟩]
  rfl

end Begun

end CWord

end TeenyBasic
