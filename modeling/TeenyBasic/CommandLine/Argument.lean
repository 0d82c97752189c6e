import TeenyBasic.CommandLine.Flag
import TeenyBasic.Text.DecimalDigit
import TeenyBasic.Text.Quoted

/-!
# Arguments

Before anything is done with them, arguments are sorted into words, flags, and the mark `--`
behind which everything is a word.  A flag with two hyphens may be shortened as long as only one
flag begins so, and its value may be attached with an equals sign.  A flag with one hyphen is one
letter, and everything behind the letter is attached to it.

Something that begins with a hyphen and is no flag is still a word if it is a hyphen alone, a
negative number, or has a space in it.

The rules have two editions (`Edition`).  They differ in letters behind one that takes no value, and
in the mark `--` as the value of a flag.
-/

namespace TeenyBasic
namespace CommandLine

inductive Edition
  | earlier
  | later
  deriving DecidableEq, Repr

inductive UsageFault
  | ambiguous (argument : String) (spellings : List String)
  | missingValue (flag : Flag)
  | unusedValue (flag : Flag) (value : String)
  | missingSource
  | unknownCommand (word : String)
  | unrecognized (arguments : List String)
  deriving DecidableEq, Repr

def UsageFault.message : UsageFault → String
  | ambiguous argument spellings =>
      "ambiguous option: " ++ argument ++ " could match " ++ ", ".intercalate spellings
  | missingValue flag => "argument " ++ flag.title ++ ": expected one argument"
  | unusedValue flag value =>
      "argument " ++ flag.title ++ ": ignored explicit argument " ++ Text.quoted value
  | missingSource => "the following arguments are required: source"
  | unknownCommand word =>
      "argument COMMAND: invalid choice: " ++ Text.quoted word ++ " (choose from " ++
        ", ".intercalate (Command.all.map fun command => Text.quoted command.name) ++ ")"
  | unrecognized arguments => "unrecognized arguments: " ++ " ".intercalate arguments

structure FlagUse where
  flag : Flag
  /-- Whether one hyphen was written. -/
  isLetter : Bool
  /-- What is attached to the flag. -/
  attached : Option (List Char)
  /-- Whether it is attached with an equals sign. -/
  byEquals : Bool
  deriving DecidableEq, Repr

inductive Role
  | word
  /-- The mark behind which everything is a word. -/
  | separator
  | flag (use : FlagUse)
  | unknownFlag
  deriving DecidableEq, Repr

structure Argument where
  text : String
  role : Role
  deriving DecidableEq, Repr

/-- The mark behind which everything is a word. -/
def separatorText : String := "--"

/-- Whether a text begins like a flag of one letter. -/
def isLetterFlag : List Char → Bool
  | '-' :: letter :: _ => letter ≠ '-'
  | _ => false

/-- The part of a text before its first equals sign, and the part behind, if there is one. -/
def splitEquals (text : List Char) : List Char × Option (List Char) :=
  match text.dropWhile (· ≠ '=') with
  | [] => (text, none)
  | _ :: behind => (text.takeWhile (· ≠ '='), some behind)

def isDigits (text : List Char) : Bool :=
  !text.isEmpty && text.all fun character => (Text.digitValue? character).isSome

def dropLineFeed (text : List Char) : List Char :=
  if text.getLast? = some '\n' then text.dropLast else text

/-- Whether a text is a minus sign and a number in digits with an optional point before some of
them. -/
def isNegativeNumber : List Char → Bool
  | '-' :: number =>
      let number := dropLineFeed number
      let isDigit := fun character => (Text.digitValue? character).isSome
      isDigits number ||
        match number.dropWhile isDigit with
        | '.' :: fraction => isDigits fraction
        | _ => false
  | _ => false

namespace Level

/-- The flags that an argument may be short for, with their spellings. -/
def candidates (level : Level) (text : List Char) : List (String × FlagUse) :=
  match text with
  | '-' :: '-' :: _ =>
      let (name, attached) := splitEquals text
      (level.spellings.filter fun spelling => name.isPrefixOf spelling.1.toList).map
        fun spelling =>
          (spelling.1, ⟨spelling.2, isLetterFlag spelling.1.toList, attached, attached.isSome⟩)
  | '-' :: letter :: behind =>
      (level.spellings.filter fun spelling => spelling.1.toList = ['-', letter]).map
        fun spelling => (spelling.1, ⟨spelling.2, true, some behind, false⟩)
  | _ => []

/-- The flag that an argument spells in full, with what an equals sign attaches to it. -/
def spelledOut? (level : Level) (text : List Char) : Option FlagUse :=
  match level.flag? (String.ofList text) with
  | some flag => some ⟨flag, isLetterFlag text, none, false⟩
  | none =>
      match splitEquals text with
      | (name, some attached) =>
          (level.flag? (String.ofList name)).map fun flag =>
            ⟨flag, isLetterFlag name, some attached, true⟩
      | (_, none) => none

/-- What an argument in front of the separator is. -/
def roleOf (level : Level) (text : String) : Except UsageFault Role :=
  match text.toList with
  | [] => .ok .word
  | ['-'] => .ok .word
  | first :: behind =>
      if first ≠ '-' then .ok .word
      else
        match level.spelledOut? (first :: behind) with
        | some use => .ok (.flag use)
        | none =>
            match level.candidates (first :: behind) with
            | [candidate] => .ok (.flag candidate.2)
            | _ :: _ :: _ =>
                .error (.ambiguous text ((level.candidates (first :: behind)).map (·.1)))
            | [] =>
                if isNegativeNumber (first :: behind) || behind.contains ' ' then .ok .word
                else .ok .unknownFlag

def sort (level : Level) : List String → Except UsageFault (List Argument)
  | [] => .ok []
  | text :: rest =>
      if text = separatorText then
        .ok (⟨text, .separator⟩ :: rest.map fun text => ⟨text, .word⟩)
      else
        match level.roleOf text with
        | .error fault => .error fault
        | .ok role =>
            match level.sort rest with
            | .error fault => .error fault
            | .ok arguments => .ok (⟨text, role⟩ :: arguments)

end Level

end CommandLine
end TeenyBasic
