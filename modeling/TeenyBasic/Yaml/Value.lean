import TeenyBasic.Number.Written
import TeenyBasic.Yaml.Node

/-!
# Values of a YAML text

The value of a document: nothing, truth values, numbers, texts, dates, lists and mappings.  A
mapping keeps its keys in the order in which they first appear, a repeated key replacing the
value; numbers and truth values that are equal count as one key.  Binary scalars are refused.
-/

namespace TeenyBasic
namespace Yaml

inductive Value
  | null
  | truth (value : Bool)
  | integer (value : Int)
  | real (value : Float)
  | text (value : String)
  | date (value : Moment)
  | list (items : List Value)
  | mapping (entries : List (Value × Value))

namespace Value

def wholeOf? (value : Float) : Option Int :=
  match Number.parts value with
  | .finite negative mantissa exponent =>
      (Number.whole? mantissa exponent).map fun magnitude =>
        if negative then -(magnitude : Int) else magnitude
  | _ => none

/-- The whole number that a value is, truth values counting as one and zero. -/
def whole? : Value → Option Int
  | truth value => some (if value then 1 else 0)
  | integer value => some value
  | real value => wholeOf? value
  | _ => none

def sameKey (left right : Value) : Bool :=
  match left.whole?, right.whole? with
  | some left, some right => left = right
  | none, none =>
      match left, right with
      | null, null => true
      | real left, real right => left == right || (left.isNaN && right.isNaN)
      | text left, text right => left = right
      | date left, date right => left = right
      | _, _ => false
  | _, _ => false

def put (key value : Value) : List (Value × Value) → List (Value × Value)
  | [] => [(key, value)]
  | entry :: rest =>
      if entry.1.sameKey key then (entry.1, value) :: rest else entry :: put key value rest

def entriesOf (pairs : List (Value × Value)) : List (Value × Value) :=
  pairs.foldl (fun entries pair => put pair.1 pair.2 entries) []

end Value

/-- A text without its underscores, and without a sign in front; tells whether that was a minus. -/
def bareNumber (text : String) : Bool × List Char :=
  Number.splitSign (text.toList.filter (· ≠ '_'))

def digitIn? (base : Nat) (character : Char) : Option Nat :=
  (hexValue? character).filter (· < base)

/-- The most digits of a number whose base is no power of two. -/
def greatestDigits : Nat := 4300

def numberIn (base : Nat) (digits : List Char) : Except Fault Int :=
  let value? := digits.foldlM (fun number digit => (digitIn? base digit).map (number * base + ·)) 0
  match digits, value? with
  | _ :: _, some value =>
      if base = 10 && greatestDigits < digits.length then .error (.tooManyDigits digits.length)
      else .ok value
  | _, _ => .error (.badInteger base (String.ofList digits))

/-- The whole number that a scalar denotes. -/
def integerOf (text : String) : Except Fault Int := do
  let (negative, digits) := bareNumber text
  let magnitude ←
    match digits with
    | [] => throw .emptyNumber
    | '0' :: [] => pure 0
    | '0' :: 'b' :: digits => numberIn 2 digits
    | '0' :: 'x' :: digits => numberIn 16 digits
    | '0' :: _ => numberIn 8 digits
    | _ => do
        let parts ← (colonParts digits.length digits).mapM (numberIn 10)
        pure (parts.foldl (fun number part => number * 60 + part) 0)
  return if negative then -magnitude else magnitude

/-- The double that a scalar without sign and underscores denotes. -/
def magnitudeOf (text : List Char) : Except Fault Float :=
  match Number.numeral? text with
  | some value => .ok value
  | none => .error (.badFloat (String.ofList text))

/-- The double that a scalar denotes. -/
def realOf (text : String) : Except Fault Float := do
  let (negative, body) := bareNumber text
  let lower := body.map Char.toLower
  let signed (value : Float) : Float := if negative then -value else value
  match lower with
  | [] => throw .emptyNumber
  | ['.', 'i', 'n', 'f'] => return signed (Number.ofSignedBits false Number.infinityBits)
  | ['.', 'n', 'a', 'n'] => return 0.0 / 0.0
  | _ =>
      let parts ← (colonParts lower.length lower).mapM magnitudeOf
      match parts with
      | [value] => return signed value
      | _ =>
          let sum := parts.reverse.foldl
            (fun (state : Float × Float) part => (state.1 + part * state.2, state.2 * 60)) (0, 1)
          return signed sum.1

def daysIn (year month : Nat) : Nat :=
  if month = 2 then
    if year % 4 = 0 && (year % 100 ≠ 0 || year % 400 = 0) then 29 else 28
  else if [4, 6, 9, 11].contains month then 30
  else 31

/-- Checks that a date and its time exist. -/
def checkMoment (moment : Moment) : Except Fault Moment := do
  if moment.year = 0 then throw (.yearRange moment.year)
  if moment.month < 1 || 12 < moment.month then throw .monthRange
  if moment.day < 1 || daysIn moment.year moment.month < moment.day then throw .dayRange
  match moment.time with
  | none => return moment
  | some (hour, minute, second) =>
      if 23 < hour then throw .hourRange
      if 59 < minute then throw .minuteRange
      if 59 < second then throw .secondRange
      return moment

/-- The truth value that a word denotes. -/
def truthOf (text : String) : Except Fault Bool :=
  let word := String.ofList (text.toList.map Char.toLower)
  if trueWords.contains word then .ok true
  else if falseWords.contains word then .ok false
  else .error (.badTruth word)

def scalarValue (tag : Tag) (text : String) : Except Fault Value :=
  match tag with
  | .null => .ok .null
  | .truth => (truthOf text).map .truth
  | .integer => (integerOf text).map .integer
  | .real => (realOf text).map .real
  | .text => .ok (.text text)
  | .date =>
      match moment? false text.toList with
      | some moment => (checkMoment moment).map .date
      | none => .error .badDate
  | _ => .error .malformed

/-- The entries of a mapping with those of the mappings it includes in front, an earlier included
one winning over a later; the sign for the default is a plain key. -/
def includedEntries : Nat → List (Node × Node) → Except Fault (List (Node × Node))
  | 0, entries => .ok entries
  | fuel + 1, entries => do
      let isInclusion (entry : Node × Node) : Bool :=
        match entry.1 with
        | .scalar tag _ => tag = .merge
        | _ => false
      let ofMapping (node : Node) : Except Fault (List (Node × Node)) :=
        match node with
        | .mapping _ entries => includedEntries fuel entries
        | _ => .error .malformed
      let included ← (entries.filter isInclusion).mapM fun entry =>
        match entry.2 with
        | .sequence _ items => do
            let groups ← items.mapM ofMapping
            pure groups.reverse.flatten
        | node => ofMapping node
      let own := (entries.filter fun entry => !isInclusion entry).map fun entry =>
        match entry.1 with
        | .scalar .standard text => (Node.scalar .text text, entry.2)
        | _ => entry
      return included.flatten ++ own

/-- Checks a node where it stands: scalars must have a value and tags a meaning. -/
def checkNode : Node → Except Fault Unit
  | .scalar tag text => (scalarValue tag text).map fun _ => ()
  | .sequence tag _ => if tag = .sequence then .ok () else .error .malformed
  | .mapping tag _ => if tag = .mapping then .ok () else .error .malformed

def checkKey : Node → Except Fault Unit
  | .scalar tag text => checkNode (.scalar tag text)
  | _ => .error .malformed

/-- Checks what stands directly in a collection, and gives the collections among it. -/
def checkContents (fuel : Nat) : Node → Except Fault (List Node)
  | .scalar _ _ => .ok []
  | .sequence _ items => do
      items.forM checkNode
      return items
  | .mapping _ entries => do
      let entries ← includedEntries fuel entries
      entries.forM fun entry => do
        checkKey entry.1
        checkNode entry.2
      return entries.map (·.2)

def checkLevels : Nat → List Node → Except Fault Unit
  | 0, _ => .ok ()
  | _, [] => .ok ()
  | fuel + 1, nodes => do
      let below ← nodes.mapM (checkContents fuel)
      checkLevels fuel below.flatten

def valueOf : Nat → Node → Except Fault Value
  | 0, _ => .ok .null
  | _, .scalar tag text => scalarValue tag text
  | fuel + 1, .sequence _ items => do
      return .list (← items.mapM (valueOf fuel))
  | fuel + 1, .mapping _ entries => do
      let entries ← includedEntries fuel entries
      let pairs ← entries.mapM fun entry => do
        return (← valueOf fuel entry.1, ← valueOf fuel entry.2)
      return .mapping (Value.entriesOf pairs)

/-- Reads a text of at most one document; a text without a document has the value null. -/
def read (text : String) : Except Fault Value := do
  match (← document text.toList) with
  | (none, _) => return .null
  | (some node, fuel) =>
      checkNode node
      checkLevels fuel [node]
      valueOf fuel node

end Yaml
end TeenyBasic
