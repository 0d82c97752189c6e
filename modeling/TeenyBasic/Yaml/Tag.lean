import TeenyBasic.Number.Entered
import TeenyBasic.Text.Quoted

/-!
# What kind of value a YAML scalar is

A node has a tag, which is written or follows from its form.  For a plain scalar it follows from
the text: words for nothing and for truth values, whole numbers in four bases and in base sixty,
numbers with a point, dates, and two signs with a meaning as keys.  Anything else is text.
-/

namespace TeenyBasic
namespace Yaml

inductive Tag
  | null
  | truth
  | integer
  | real
  | date
  | text
  /-- The sign `<<`, a key that includes other mappings. -/
  | merge
  /-- The sign `=`, a key that stands for the default of a mapping. -/
  | standard
  | sequence
  | mapping
  /-- A tag without a meaning here. -/
  | other
  deriving DecidableEq, Repr

/-- The common beginning of the tags that the format defines. -/
def coreTags : String := "tag:yaml.org,2002:"

def Tag.ofName (name : String) : Tag :=
  let known : List (String × Tag) :=
    [("null", null), ("bool", truth), ("int", integer), ("float", real), ("timestamp", date),
      ("str", text), ("seq", sequence), ("map", mapping)]
  match known.find? fun entry => coreTags ++ entry.1 = name with
  | some (_, tag) => tag
  | none => other

def afterSign : List Char → List Char
  | '-' :: rest => rest
  | '+' :: rest => rest
  | text => text

/-- A text of at least one character, all of them of a kind. -/
def allOf (test : Char → Bool) (text : List Char) : Bool :=
  !text.isEmpty && text.all test

def isSpacedDigit (character : Char) : Bool :=
  Number.isDigit character || character = '_'

/-- Splits a text at its first character of a kind, which is dropped. -/
def splitAt? (mark : Char) (text : List Char) : Option (List Char × List Char) :=
  match text.dropWhile (· ≠ mark) with
  | _ :: rest => some (text.takeWhile (· ≠ mark), rest)
  | [] => none

/-- The parts of a text between colons, from a text of at most the given length. -/
def colonParts : Nat → List Char → List (List Char)
  | 0, text => [text]
  | fuel + 1, text =>
      match splitAt? ':' text with
      | some (first, rest) => first :: colonParts fuel rest
      | none => [text]

/-- A part in base sixty behind a colon: one digit, or two of which the first is below six. -/
def isSixtieth : List Char → Bool
  | [digit] => Number.isDigit digit
  | [tens, digit] => '0' ≤ tens && tens ≤ '5' && Number.isDigit digit
  | _ => false

/-- Digits and underscores that begin with a digit of the given kind. -/
def isSpacedNumber (first : Char → Bool) : List Char → Bool
  | [] => false
  | digit :: rest => first digit && rest.all isSpacedDigit

/-- A number in base sixty: a first part and at least one sixtieth. -/
def isBaseSixty (first : Char → Bool) (text : List Char) : Bool :=
  match colonParts text.length text with
  | head :: next :: rest => isSpacedNumber first head && (next :: rest).all isSixtieth
  | _ => false

def isNonzeroDigit (character : Char) : Bool :=
  '1' ≤ character && character ≤ '9'

/-- Whether a plain scalar is a whole number. -/
def isInteger (text : List Char) : Bool :=
  let body := afterSign text
  let based :=
    match body with
    | '0' :: 'b' :: digits => allOf (fun c => c = '0' || c = '1' || c = '_') digits
    | '0' :: 'x' :: digits =>
        allOf (fun c => Number.isDigit c || ('a' ≤ c && c ≤ 'f') || ('A' ≤ c && c ≤ 'F') ||
          c = '_') digits
    | '0' :: digits => digits.all fun c => ('0' ≤ c && c ≤ '7') || c = '_'
    | _ => false
  based || isSpacedNumber isNonzeroDigit body || isBaseSixty isNonzeroDigit body

def isSignedExponent : List Char → Bool
  | [] => true
  | mark :: sign :: digits =>
      (mark = 'e' || mark = 'E') && (sign = '-' || sign = '+') && allOf Number.isDigit digits
  | _ => false

/-- What follows the point of a number. -/
def isFraction (text : List Char) : Bool :=
  isSignedExponent (text.dropWhile isSpacedDigit)

/-- Whether a plain scalar is a number with a point. -/
def isReal (text : List Char) : Bool :=
  let body := afterSign text
  let pointed :=
    match splitAt? '.' body with
    | some (wholePart, rest) =>
        (isSpacedNumber Number.isDigit wholePart && isFraction rest) ||
          (isBaseSixty Number.isDigit wholePart && rest.all isSpacedDigit)
    | none => false
  let bare :=
    match text with
    | '.' :: digit :: rest => Number.isDigit digit && isFraction rest
    | _ => false
  let named (names : List String) (word : List Char) : Bool := names.contains (String.ofList word)
  pointed || bare || named [".inf", ".Inf", ".INF"] body || named [".nan", ".NaN", ".NAN"] text

/-- A date with an optional time of day. -/
structure Moment where
  year : Nat
  month : Nat
  day : Nat
  time : Option (Nat × Nat × Nat)
  deriving DecidableEq, Repr

/-- Takes between `least` and `most` digits, as many as there are. -/
def takeDigits? (least most : Nat) (text : List Char) : Option (Nat × List Char) :=
  let digits := (text.take most).takeWhile Number.isDigit
  if digits.length < least then none
  else some (Number.digitsValue digits, text.drop digits.length)

def takeCharacter? (character : Char) : List Char → Option (List Char)
  | next :: rest => if next = character then some rest else none
  | [] => none

/-- A zone behind a time: `Z`, or a sign with hours and perhaps minutes. -/
def isZone (text : List Char) : Bool :=
  match text with
  | ['Z'] => true
  | sign :: rest =>
      (sign = '+' || sign = '-') &&
        match takeDigits? 1 2 rest with
        | some (_, []) => true
        | some (_, ':' :: minutes) => minutes.length = 2 && minutes.all Number.isDigit
        | _ => false
  | [] => false

/-- What may follow the seconds: a fraction and a zone. -/
def endsTime (text : List Char) : Bool :=
  let rest :=
    match text with
    | '.' :: fraction => fraction.dropWhile Number.isDigit
    | rest => rest
  rest.isEmpty || isZone (rest.dropWhile fun c => c = ' ' || c = '\t')

/-- Reads a time of day, after what separates it from the date. -/
def time? (text : List Char) : Option (Nat × Nat × Nat) := do
  let (hour, rest) ← takeDigits? 1 2 text
  let (minute, rest) ← takeDigits? 2 2 (← takeCharacter? ':' rest)
  let (second, rest) ← takeDigits? 2 2 (← takeCharacter? ':' rest)
  if endsTime rest then some (hour, minute, second) else none

/-- What separates a date from a time: a letter, or blanks. -/
def afterSeparator? : List Char → Option (List Char)
  | 'T' :: rest => some rest
  | 't' :: rest => some rest
  | text =>
      let rest := text.dropWhile fun c => c = ' ' || c = '\t'
      if rest.length < text.length then some rest else none

/-- Reads a date, perhaps with a time; month and day of a bare date have two digits if `strict`. -/
def moment? (strict : Bool) (text : List Char) : Option Moment := do
  let (year, rest) ← takeDigits? 4 4 text
  let (month, afterMonth) ← takeDigits? 1 2 (← takeCharacter? '-' rest)
  let (day, afterDay) ← takeDigits? 1 2 (← takeCharacter? '-' afterMonth)
  if afterDay.isEmpty then
    if strict && text.length ≠ 10 then none else some ⟨year, month, day, none⟩
  else
    let time ← time? (← afterSeparator? afterDay)
    some ⟨year, month, day, some time⟩

def trueWords : List String :=
  ["yes", "Yes", "YES", "true", "True", "TRUE", "on", "On", "ON"]

/-- Words for falsehood, in all their spellings. -/
def falseWords : List String :=
  ["no", "No", "NO", "false", "False", "FALSE", "off", "Off", "OFF"]

/-- Words for nothing, the empty one included. -/
def nullWords : List String :=
  ["", "~", "null", "Null", "NULL"]

/-- The tag that follows from the text of a plain scalar. -/
def Tag.ofPlain (text : String) : Tag :=
  let characters := text.toList
  if nullWords.contains text then null
  else if trueWords.contains text || falseWords.contains text then truth
  else if isReal characters then real
  else if isInteger characters then integer
  else if text = "<<" then merge
  else if (moment? true characters).isSome then date
  else if text = "=" then standard
  else .text

end Yaml
end TeenyBasic
