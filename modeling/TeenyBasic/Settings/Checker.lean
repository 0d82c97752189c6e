import TeenyBasic.Settings.Library
import TeenyBasic.Text.Blank
import TeenyBasic.Yaml.Value

/-!
# Checking settings

`Settings.ofEntries` accepts a mapping or finds everything that is wrong with it: first the faults
of the settings in their fixed order, then those of the other keys in the order of the mapping.  A
hyphenated spelling is used if both are there.  Together with `Yaml.read` it makes the libraries
that the program comes with (`Settings.standardLibrary`).
-/

namespace TeenyBasic

namespace Settings

open Yaml (Value)

/-- What can be wrong with an entry. -/
inductive Complaint
  | notText
  | shortText
  | notInteger
  | unreadableInteger
  | oversizedInteger
  | fractionalInteger
  | infiniteInteger
  | tooGreat
  | tooSmall
  | notTruth
  | unreadableTruth
  | unknownKey
  | keyNotText
  | notMapping
  deriving DecidableEq, Repr

def Complaint.code : Complaint → String
  | notText => "string_type"
  | shortText => "string_too_short"
  | notInteger => "int_type"
  | unreadableInteger => "int_parsing"
  | oversizedInteger => "int_parsing_size"
  | fractionalInteger => "int_from_float"
  | infiniteInteger => "finite_number"
  | tooGreat => "less_than_equal"
  | tooSmall => "greater_than_equal"
  | notTruth => "bool_type"
  | unreadableTruth => "bool_parsing"
  | unknownKey => "extra_forbidden"
  | keyNotText => "invalid_key"
  | notMapping => "model_type"

inductive Label
  | text (name : String)
  | number (value : Int)
  deriving DecidableEq, Repr

/-- A complaint about the entry with a key, or about the whole. -/
structure Finding where
  key : Option Label
  complaint : Complaint
  deriving DecidableEq, Repr

def readText (least : Nat) : Value → Except Complaint String
  | .text text => if text.length < least then .error .shortText else .ok text
  | _ => .error .notText

/-- Digits with single underscores between them, as a number. -/
def spacedDigits? (text : List Char) : Option Nat :=
  match Number.dropUnderscores ' ' text with
  | some digits =>
      if !digits.isEmpty && digits.all Number.isDigit then some (Number.digitsValue digits)
      else none
  | none => none

/-- A whole number written as text: digits behind an optional sign, or digits with a fraction of
zeros. -/
def integerText? (text : List Char) : Option Int :=
  let trimmed := Text.trim Text.isWhite text
  let (negative, body) := Number.splitSign trimmed
  match spacedDigits? body with
  | some magnitude => some (if negative then -(magnitude : Int) else magnitude)
  | none =>
      let wholePart := trimmed.takeWhile Number.isDigit
      match trimmed.dropWhile Number.isDigit with
      | '.' :: zeros =>
          if !wholePart.isEmpty && !zeros.isEmpty && zeros.all (· = '0') then
            some (Number.digitsValue wholePart)
          else none
      | _ => none

/-- The most characters of a whole number that is written as text. -/
def greatestIntegerText : Nat := 4300

def readInteger : Value → Except Complaint Int
  | .truth value => .ok (if value then 1 else 0)
  | .integer value => .ok value
  | .real value =>
      match Number.parts value, Value.wholeOf? value with
      | _, some number => .ok number
      | .finite _ _ _, none => .error .fractionalInteger
      | _, none => .error .infiniteInteger
  | .text text =>
      if greatestIntegerText < (Text.trim Text.isWhite text.toList).length then
        .error .oversizedInteger
      else
        match integerText? text.toList with
        | some number => .ok number
        | none => .error .unreadableInteger
  | _ => .error .notInteger

/-- Reads a whole number within bounds. -/
def readBounded (least greatest : Int) (value : Value) : Except Complaint Int :=
  match readInteger value with
  | .error complaint => .error complaint
  | .ok number =>
      if greatest < number then .error .tooGreat
      else if number < least then .error .tooSmall
      else .ok number

/-- Words that switch a setting on, in small letters. -/
def onWords : List String :=
  ["1", "on", "t", "true", "y", "yes"]

/-- Words that switch a setting off, in small letters. -/
def offWords : List String :=
  ["0", "off", "f", "false", "n", "no"]

/-- Whether a number fits into 64 bits with a sign. -/
def fitsWord (number : Int) : Bool :=
  -0x8000000000000000 ≤ number && number < 0x8000000000000000

def readSwitch : Value → Except Complaint Bool
  | .truth value => .ok value
  | .integer number =>
      if number = 0 then .ok false
      else if number = 1 then .ok true
      else if fitsWord number then .error .unreadableTruth
      else .error .notTruth
  | .real value =>
      match Value.wholeOf? value with
      | some 0 => .ok false
      | some 1 => .ok true
      | _ => .error .notTruth
  | .text text =>
      let word := String.ofList (text.toList.map Char.toLower)
      if onWords.contains word then .ok true
      else if offWords.contains word then .ok false
      else .error .unreadableTruth
  | _ => .error .notTruth

/-- The value under a key that is text. -/
def valueAt? (entries : List (Value × Value)) (name : String) : Option Value :=
  (entries.find? fun entry =>
    match entry.1 with
    | .text key => key = name
    | _ => false).map (·.2)

/-- The spelling of a setting that is used, with its value. -/
def Field.said {α : Type} (field : Field α) (entries : List (Value × Value)) :
    Option (String × Value) :=
  match valueAt? entries field.hyphenated with
  | some value => some (field.hyphenated, value)
  | none => (valueAt? entries field.plain).map (field.plain, ·)

def readPath : Value → Except Complaint String :=
  readText leastPathLength

def readPrecision : Value → Except Complaint Int :=
  readBounded leastPrecision greatestPrecision

/-- The finding on a setting, if its value is refused. -/
def findingOn {α : Type} (read : Value → Except Complaint α) :
    Option (String × Value) → List Finding
  | none => []
  | some (name, value) =>
      match read value with
      | .ok _ => []
      | .error complaint => [⟨some (.text name), complaint⟩]

/-- The value of a setting, or its default if it is absent or refused. -/
def settingOr {α : Type} (fallback : α) (read : Value → Except Complaint α) :
    Option (String × Value) → α
  | none => fallback
  | some (_, value) =>
      match read value with
      | .ok setting => setting
      | .error _ => fallback

/-- How a number with a point is written as a key. -/
def realKey (value : Float) : String :=
  match Number.parts value with
  | .notANumber => "nan"
  | .infinite negative => if negative then "-inf" else "inf"
  | .finite negative mantissa exponent =>
      let digits :=
        if mantissa = 0 then Number.positional Number.shortestLayout ⟨0, 0⟩
        else Number.layOut Number.shortestLayout (Number.shortest mantissa exponent)
      String.ofList (Number.signText negative ++ digits)

def dateKey (moment : Yaml.Moment) : String :=
  let numbers (parts : List Nat) : String := ", ".intercalate (parts.map toString)
  match moment.time with
  | none => "datetime.date(" ++ numbers [moment.year, moment.month, moment.day] ++ ")"
  | some (hour, minute, second) =>
      let seconds := if second = 0 then [] else [second]
      "datetime.datetime(" ++
        numbers ([moment.year, moment.month, moment.day, hour, minute] ++ seconds) ++ ")"

/-- How a whole number names an entry: as itself if it fits into 64 bits. -/
def integerLabel (number : Int) : Label :=
  if fitsWord number then .number number else .text (toString number)

def labelOf : Value → Label
  | .text name => .text name
  | .integer number => integerLabel number
  | .truth value => .number (if value then 1 else 0)
  | .null => .text "None"
  | .real value => .text (realKey value)
  | .date moment => .text (dateKey moment)
  | .list _ => .text "[]"
  | .mapping _ => .text "\x7b\x7d"

/-- The finding on a key that names no setting. -/
def findingOnKey (used : List String) (key : Value) : List Finding :=
  match key with
  | .text name => if used.contains name then [] else [⟨some (.text name), .unknownKey⟩]
  | _ => [⟨some (labelOf key), .keyNotText⟩]

/-- Reads settings from the entries of a mapping with distinct keys. -/
def ofEntries (entries : List (Value × Value)) : Except (List Finding) Settings :=
  let path := pathField.said entries
  let precision := precisionField.said entries
  let echo := echoField.said entries
  let used := [path, precision, echo].filterMap fun setting => setting.map (·.1)
  let findings := findingOn readPath path ++ findingOn readPrecision precision ++
    findingOn readSwitch echo ++ entries.flatMap fun entry => findingOnKey used entry.1
  if findings.isEmpty then
    .ok {
      outputPath := settingOr pathField.fallback readPath path
      printPrecision := settingOr precisionField.fallback readPrecision precision
      echoCode := settingOr echoField.fallback readSwitch echo }
  else .error findings

/-- Reads settings from a value, which must be a mapping. -/
def ofValue : Value → Except (List Finding) Settings
  | .mapping entries => ofEntries entries
  | _ => .error [⟨none, .notMapping⟩]

def contentOf : Value → Content (List (Value × Value))
  | .null => .nothing
  | .mapping entries => .mapping entries
  | _ => .other

/-- The libraries that the program comes with. -/
abbrev standardLibrary : Library where
  Key := Value
  Value := Value
  Finding := Finding
  read text :=
    match Yaml.read text with
    | .ok value => .ok (contentOf value)
    | .error .malformed => .error (.declared Yaml.Fault.malformed.message)
    | .error fault => .error (.foreign ⟨fault.kind, fault.message⟩)
  check entries := (ofEntries entries).mapError .declared
  describe findings := ", ".intercalate (findings.map fun finding => finding.complaint.code)

end Settings

end TeenyBasic
