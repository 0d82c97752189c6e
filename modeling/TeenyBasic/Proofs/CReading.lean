/-!
# Reading C text

A reader goes through C text character by character.  It knows whether it is in a string literal and
how deep in braces it is: a literal begins at a double quote and ends at the next one that no
backslash precedes, and braces count outside of literals only.

A `Passage` is a text that leads a reader from outside of literals to outside of literals, whatever
was read before.  Passages are put together of passages (`Passage.append`), so it is enough to know
the pieces of a text: plain text, literals and single braces.
-/

namespace TeenyBasic

/-- A reader of C text. -/
structure CReader where
  /-- What was read of the literal around the reader, if it is in one. -/
  literal : Option (List Char)
  depth : Int
  /-- The contents of the literals that were read to their ends. -/
  literals : List (List Char)

namespace CReader

def start : CReader :=
  ⟨none, 0, []⟩

def next (reader : CReader) (character : Char) : CReader :=
  match reader.literal with
  | none =>
      if character = '"' then { reader with literal := some [] }
      else if character = '\x7b' then { reader with depth := reader.depth + 1 }
      else if character = '\x7d' then { reader with depth := reader.depth - 1 }
      else reader
  | some content =>
      if character = '"' ∧ content.getLast? ≠ some '\\' then
        { reader with literal := none, literals := reader.literals ++ [content] }
      else { reader with literal := some (content ++ [character]) }

def readOn (reader : CReader) (text : List Char) : CReader :=
  text.foldl next reader

def read (text : List Char) : CReader :=
  start.readOn text

@[simp] theorem readOn_append (reader : CReader) (first second : List Char) :
    reader.readOn (first ++ second) = (reader.readOn first).readOn second :=
  List.foldl_append

@[simp] theorem readOn_cons (reader : CReader) (character : Char) (text : List Char) :
    reader.readOn (character :: text) = (reader.next character).readOn text :=
  rfl

end CReader

/-- A text that leads from outside of literals to outside of literals: by how much the depth of
braces rises, how far it may go down on the way, and the contents of the literals.  Every line feed
on the way is outside of literals. -/
structure Passage (text : List Char) (rise low : Int) (found : List (List Char)) : Prop where
  ends : ∀ reader : CReader, reader.literal = none →
    reader.readOn text = ⟨none, reader.depth + rise, reader.literals ++ found⟩
  stays : ∀ reader : CReader, reader.literal = none → ∀ before, before <+: text →
    reader.depth + low ≤ (reader.readOn before).depth
  lineEnds : ∀ reader : CReader, reader.literal = none → ∀ before after,
    text = before ++ '\n' :: after → (reader.readOn before).literal = none

namespace Passage

variable {text first second : List Char} {rise low rise' low' : Int}
  {found found' : List (List Char)}

theorem append (before : Passage first rise low found) (behind : Passage second rise' low' found')
    {lower : Int} (above : lower ≤ low) (above' : lower ≤ rise + low') :
    Passage (first ++ second) (rise + rise') lower (found ++ found') where
  ends reader outside := by
    rw [CReader.readOn_append, before.ends reader outside, behind.ends _ rfl, Int.add_assoc,
      List.append_assoc]
  stays reader outside := by
    rintro part ⟨rest, whole⟩
    rcases List.append_eq_append_iff.mp whole with ⟨middle, inFirst, -⟩ | ⟨middle, rfl, inSecond⟩
    · have bound := before.stays reader outside part ⟨middle, inFirst.symm⟩
      omega
    · have bound := behind.stays ⟨none, reader.depth + rise, reader.literals ++ found⟩ rfl middle
        ⟨rest, inSecond.symm⟩
      rw [CReader.readOn_append, before.ends reader outside]
      dsimp only at bound
      omega
  lineEnds reader outside part rest whole := by
    rcases List.append_eq_append_iff.mp whole with
      ⟨middle, rfl, inSecond⟩ | ⟨middle, inFirst, ended⟩
    · rw [CReader.readOn_append, before.ends reader outside]
      exact behind.lineEnds _ rfl middle rest inSecond
    · cases middle with
      | nil =>
        rw [List.append_nil] at inFirst
        rw [← inFirst, before.ends reader outside]
      | cons character middle =>
        obtain ⟨rfl, -⟩ := List.cons.inj ended
        exact before.lineEnds reader outside part middle inFirst

theorem nil : Passage [] 0 0 [] where
  ends reader outside := by
    obtain ⟨literal, depth, literals⟩ := reader
    obtain rfl : literal = none := outside
    simp [CReader.readOn]
  stays reader outside part short := by
    rw [List.prefix_nil.mp short]
    simp [CReader.readOn]
  lineEnds reader outside part rest whole := by simp at whole

/-- A character that means nothing to a reader. -/
def isPlain (character : Char) : Bool :=
  character ≠ '"' && character ≠ '\x7b' && character ≠ '\x7d'

private theorem next_of_isPlain {reader : CReader} (outside : reader.literal = none)
    {character : Char}
    (plain : isPlain character = true) : reader.next character = reader := by
  simp only [isPlain, Bool.and_eq_true, decide_eq_true_eq] at plain
  obtain ⟨⟨noQuote, noOpening⟩, noClosing⟩ := plain
  simp [CReader.next, outside, noQuote, noOpening, noClosing]

theorem readOn_of_isPlain {reader : CReader} (outside : reader.literal = none)
    (plain : text.all isPlain = true) : reader.readOn text = reader := by
  induction text with
  | nil => rfl
  | cons character text induction =>
    rw [List.all_cons, Bool.and_eq_true] at plain
    rw [CReader.readOn_cons, next_of_isPlain outside plain.1, induction plain.2]

theorem ofPlain (plain : text.all isPlain = true) : Passage text 0 0 [] where
  ends reader outside := by
    rw [readOn_of_isPlain outside plain]
    obtain ⟨literal, depth, literals⟩ := reader
    obtain rfl : literal = none := outside
    simp
  stays reader outside part := by
    rintro ⟨rest, rfl⟩
    rw [List.all_append, Bool.and_eq_true] at plain
    rw [readOn_of_isPlain outside plain.1]
    omega
  lineEnds reader outside part rest whole := by
    subst whole
    rw [List.all_append, Bool.and_eq_true] at plain
    rw [readOn_of_isPlain outside plain.1, outside]

private theorem readOn_inside {reader : CReader} {begun content : List Char}
    (inside : reader.literal = some begun) (noQuote : '"' ∉ content) :
    reader.readOn content = { reader with literal := some (begun ++ content) } := by
  induction content generalizing reader begun with
  | nil => simp [CReader.readOn, ← inside]
  | cons character content induction =>
    have other : character ≠ '"' := fun same => noQuote (same ▸ List.mem_cons_self)
    have read : reader.next character = { reader with literal := some (begun ++ [character]) } := by
      simp [CReader.next, inside, other]
    rw [CReader.readOn_cons, read,
      induction rfl fun member => noQuote (List.mem_cons_of_mem _ member)]
    simp

/-- A literal between its quotes. -/
theorem ofLiteral {content : List Char} (noQuote : '"' ∉ content) (noFeed : '\n' ∉ content)
    (ended : content.getLast? ≠ some '\\') :
    Passage ('"' :: content ++ ['"']) 0 0 [content] := by
  have opened (reader : CReader) (outside : reader.literal = none) :
      reader.next '"' = { reader with literal := some [] } := by
    simp [CReader.next, outside]
  have inside (reader : CReader) (outside : reader.literal = none) (part : List Char)
      (within : part <+: content) :
      reader.readOn ('"' :: part) = { reader with literal := some part } := by
    rw [CReader.readOn_cons, opened reader outside,
      readOn_inside rfl fun member => noQuote (within.subset member)]
    rfl
  have closed (reader : CReader) (outside : reader.literal = none) :
      reader.readOn ('"' :: content ++ ['"']) =
        ⟨none, reader.depth + 0, reader.literals ++ [content]⟩ := by
    rw [CReader.readOn_append, inside reader outside content List.prefix_rfl]
    simp [CReader.readOn, CReader.next, ended]
  refine ⟨closed, ?_, ?_⟩
  · rintro reader outside part ⟨rest, whole⟩
    rcases List.append_eq_append_iff.mp whole with ⟨middle, within, -⟩ | ⟨middle, rfl, last⟩
    · cases part with
      | nil => simp [CReader.readOn]
      | cons quote part =>
        obtain ⟨rfl, tail⟩ := List.cons.inj within
        rw [inside reader outside part ⟨middle, tail.symm⟩]
        simp
    · rcases List.append_eq_singleton_iff.mp last.symm with ⟨rfl, -⟩ | ⟨rfl, -⟩
      · rw [List.append_nil, inside reader outside content List.prefix_rfl]
        simp
      · exact Int.le_of_eq (congrArg CReader.depth (closed reader outside)).symm
  · intro reader outside part rest whole
    have member : '\n' ∈ '"' :: content ++ ['"'] := by
      rw [whole]
      simp
    simp only [List.cons_append, List.mem_cons, List.mem_append, List.not_mem_nil,
      or_false] at member
    rcases member with same | inContent | same
    · exact absurd same (by decide)
    · exact absurd inContent noFeed
    · exact absurd same (by decide)

theorem singleton_prefix_cases {character : Char} {part : List Char}
    (short : part <+: [character]) :
    part = [] ∨ part = [character] := by
  obtain ⟨rest, whole⟩ := short
  rcases List.append_eq_singleton_iff.mp whole with ⟨empty, -⟩ | ⟨full, -⟩
  · exact .inl empty
  · exact .inr full

theorem opening : Passage ['\x7b'] 1 0 [] where
  ends reader outside := by simp [CReader.readOn, CReader.next, outside]
  stays reader outside part short := by
    rcases singleton_prefix_cases short with rfl | rfl
    · simp [CReader.readOn]
    · have read : (reader.readOn ['\x7b']).depth = reader.depth + 1 := by
        simp [CReader.readOn, CReader.next, outside]
      omega
  lineEnds reader outside part rest whole := by
    have member : '\n' ∈ ['\x7b'] := by
      rw [whole]
      simp
    simp at member

theorem closing : Passage ['\x7d'] (-1) (-1) [] where
  ends reader outside := by
    simp [CReader.readOn, CReader.next, outside]
    omega
  stays reader outside part short := by
    rcases singleton_prefix_cases short with rfl | rfl
    · have read : (reader.readOn []).depth = reader.depth := rfl
      omega
    · have read : (reader.readOn ['\x7d']).depth = reader.depth - 1 := by
        simp [CReader.readOn, CReader.next, outside]
      omega
  lineEnds reader outside part rest whole := by
    have member : '\n' ∈ ['\x7d'] := by
      rw [whole]
      simp
    simp at member

end Passage

/-- A character that means nothing to a reader and ends no line. -/
def isInert (character : Char) : Bool :=
  Passage.isPlain character && character ≠ '\n'

/-- The text means nothing to a reader and is all on one line. -/
def Plain (text : String) : Prop :=
  text.toList.all isInert = true

@[simp] theorem isInert_iff {character : Char} :
    isInert character = true ↔ character ∉ ['"', '\x7b', '\x7d', '\n'] := by
  simp [isInert, Passage.isPlain, and_assoc]

theorem Plain.append {first second : String} (plain : Plain first) (plain' : Plain second) :
    Plain (first ++ second) := by
  rw [Plain, String.toList_append, List.all_append, plain, plain', Bool.and_self]

inductive CPiece
  | plain (text : String)
  | literal (content : String)
  | opening
  | closing
  | lineFeed

namespace CPiece

def text : CPiece → String
  | plain text => text
  | literal content => "\"" ++ content ++ "\""
  | opening => "\x7b"
  | closing => "\x7d"
  | lineFeed => "\n"

def textOf (pieces : List CPiece) : String :=
  String.join (pieces.map text)

/-- A reader finds the piece to be what it is called. -/
def IsSound : CPiece → Prop
  | plain text => Plain text
  | literal content =>
      '"' ∉ content.toList ∧ '\n' ∉ content.toList ∧ content.toList.getLast? ≠ some '\\'
  | _ => True

/-- By how much the depth of braces rises. -/
def rise : CPiece → Int
  | opening => 1
  | closing => -1
  | _ => 0

/-- By how much the depth of braces rises over pieces. -/
def riseOf : List CPiece → Int
  | [] => 0
  | piece :: rest => piece.rise + riseOf rest

/-- How far the depth of braces goes down, at most, on the way through pieces. -/
def lowest : List CPiece → Int
  | [] => 0
  | piece :: rest => min 0 (piece.rise + lowest rest)

def literals : CPiece → List String
  | literal content => [content]
  | _ => []

@[simp] theorem textOf_cons (piece : CPiece) (rest : List CPiece) :
    textOf (piece :: rest) = piece.text ++ textOf rest := by
  simp [textOf]

@[simp] theorem textOf_append (first second : List CPiece) :
    textOf (first ++ second) = textOf first ++ textOf second := by
  simp [textOf]

@[simp] theorem mem_textOf {pieces : List CPiece} {character : Char} :
    character ∈ (textOf pieces).toList ↔ ∃ piece ∈ pieces, character ∈ piece.text.toList := by
  induction pieces with
  | nil => simp [textOf]
  | cons piece rest induction => simp [textOf_cons, induction]

@[simp] theorem riseOf_append (first second : List CPiece) :
    riseOf (first ++ second) = riseOf first + riseOf second := by
  induction first with
  | nil => simp [riseOf]
  | cons piece rest induction =>
    rw [List.cons_append, riseOf, riseOf, induction, Int.add_assoc]

theorem lowest_le_zero (pieces : List CPiece) : lowest pieces ≤ 0 := by
  cases pieces with
  | nil => exact Int.le_refl 0
  | cons piece rest => exact Int.min_le_left _ _

theorem lowest_append (first second : List CPiece) :
    lowest (first ++ second) = min (lowest first) (riseOf first + lowest second) := by
  induction first with
  | nil =>
    have below := lowest_le_zero second
    simp only [List.nil_append, lowest, riseOf]
    omega
  | cons piece rest induction =>
    simp only [List.cons_append, lowest, riseOf, induction]
    omega

theorem IsSound.passage {piece : CPiece} (sound : piece.IsSound) :
    Passage piece.text.toList piece.rise (min 0 piece.rise) (piece.literals.map String.toList) := by
  cases piece with
  | plain text =>
    refine .ofPlain (List.all_eq_true.mpr fun character member => ?_)
    have inert := List.all_eq_true.mp sound character member
    exact (Bool.and_eq_true_iff.mp inert).1
  | literal content =>
    have whole : (literal content).text.toList = '"' :: content.toList ++ ['"'] := by
      simp [text]
    rw [whole]
    exact .ofLiteral sound.1 sound.2.1 sound.2.2
  | opening => exact .opening
  | closing => exact .closing
  | lineFeed => exact .ofPlain rfl

/-- A reader goes through sound pieces as they say. -/
theorem passage_textOf {pieces : List CPiece} (sound : ∀ piece ∈ pieces, piece.IsSound) :
    Passage (textOf pieces).toList (riseOf pieces) (lowest pieces)
      ((pieces.flatMap literals).map String.toList) := by
  induction pieces with
  | nil => exact .nil
  | cons piece rest induction =>
    have first := (sound piece List.mem_cons_self).passage
    have others := induction fun piece member => sound piece (List.mem_cons_of_mem _ member)
    rw [textOf_cons, String.toList_append, List.flatMap_cons, List.map_append]
    have below := lowest_le_zero rest
    exact first.append others (by simp only [lowest]; omega) (by simp only [lowest]; omega)

theorem IsSound.lineFeed_notMem {piece : CPiece} (sound : piece.IsSound)
    (within : piece ≠ .lineFeed) : '\n' ∉ piece.text.toList := by
  cases piece with
  | plain text =>
    intro member
    exact absurd (List.all_eq_true.mp sound _ member) (by decide)
  | literal content => simpa [text] using sound.2.1
  | opening => decide
  | closing => decide
  | lineFeed => exact absurd rfl within

end CPiece

end TeenyBasic
