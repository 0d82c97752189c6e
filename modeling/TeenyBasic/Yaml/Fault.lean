import TeenyBasic.Text.Quoted

/-!
# Faults of YAML texts

A text may be malformed, or well formed with scalars that have no value.  The two are told apart,
because only the first kind is a matter of YAML.
-/

namespace TeenyBasic
namespace Yaml

inductive Fault
  /-- It is not well formed. -/
  | malformed
  /-- An escape names a code point above all characters. -/
  | codeTooLarge
  /-- Text tagged as a number does not read as one in the given base. -/
  | badInteger (base : Nat) (text : String)
  | tooManyDigits (count : Nat)
  | badFloat (text : String)
  /-- Text tagged as a number is empty. -/
  | emptyNumber
  /-- Text tagged as a truth value is none. -/
  | badTruth (text : String)
  /-- Text tagged as a date is none. -/
  | badDate
  | yearRange (year : Nat)
  | monthRange
  | dayRange
  | hourRange
  | minuteRange
  | secondRange
  deriving DecidableEq, Repr

/-- The name of the class that a fault belongs to. -/
def Fault.kind : Fault → String
  | malformed => "YAMLError"
  | emptyNumber => "IndexError"
  | badTruth _ => "KeyError"
  | badDate => "AttributeError"
  | _ => "ValueError"

def Fault.message : Fault → String
  | malformed => "malformed text"
  | codeTooLarge => "chr() arg not in range(0x110000)"
  | badInteger base text =>
      "invalid literal for int() with base " ++ toString base ++ ": " ++ Text.quoted text
  | tooManyDigits count =>
      "Exceeds the limit (4300 digits) for integer string conversion: value has " ++
        toString count ++ " digits; use sys.set_int_max_str_digits() to increase the limit"
  | badFloat text => "could not convert string to float: " ++ Text.quoted text
  | emptyNumber => "string index out of range"
  | badTruth text => Text.quoted text
  | badDate => "'NoneType' object has no attribute 'groupdict'"
  | yearRange year => "year " ++ toString year ++ " is out of range"
  | monthRange => "month must be in 1..12"
  | dayRange => "day is out of range for month"
  | hourRange => "hour must be in 0..23"
  | minuteRange => "minute must be in 0..59"
  | secondRange => "second must be in 0..59"

end Yaml
end TeenyBasic
