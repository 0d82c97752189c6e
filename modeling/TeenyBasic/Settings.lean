/-!
# Project settings

Three settings govern compilation: where the code goes, how many decimals are printed, and
whether the code is shown.  Each is declared as a field with two spellings, one with a hyphen and
one with an underscore.  Mappings are checked against these declarations by a library
(`Settings.Library`).
-/

namespace TeenyBasic

structure Settings where
  outputPath : String
  printPrecision : Int
  echoCode : Bool
  deriving DecidableEq, Repr

namespace Settings

/-- The declaration of a setting. -/
structure Field (α : Type) where
  /-- The spelling that counts if both are there. -/
  hyphenated : String
  plain : String
  /-- What the setting is if it is not mentioned. -/
  fallback : α

def pathField : Field String where
  hyphenated := "output-path"
  plain := "output_path"
  fallback := "out/out.c"

def leastPathLength : Nat := 1

def precisionField : Field Int where
  hyphenated := "print-precision"
  plain := "print_precision"
  fallback := 2

/-- The fewest decimals that can be printed. -/
def leastPrecision : Int := 0

/-- The most decimals that can be printed. -/
def greatestPrecision : Int := 17

def echoField : Field Bool where
  hyphenated := "echo-code"
  plain := "echo_code"
  fallback := false

/-- The settings of a project that says nothing. -/
def default : Settings where
  outputPath := pathField.fallback
  printPrecision := precisionField.fallback
  echoCode := echoField.fallback

end Settings

end TeenyBasic
