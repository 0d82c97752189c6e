import TeenyBasic.Settings

/-!
# Libraries for settings

Settings files are read with a library that reads YAML, and their mappings are checked with one
that checks values against declarations.  Both are parameters of the program: all that the program
relies on is the form of their answers.
-/

namespace TeenyBasic
namespace Settings

/-- An error that a library does not declare, with the name of its class. -/
structure ForeignError where
  kind : String
  message : String
  deriving DecidableEq, Repr

/-- How a call to a library fails. -/
inductive Raised (Declared : Type)
  | declared (error : Declared)
  | foreign (error : ForeignError)
  deriving DecidableEq, Repr

/-- What a text stands for. -/
inductive Content (Mapping : Type)
  | nothing
  | mapping (mapping : Mapping)
  | other
  deriving DecidableEq, Repr

structure Library where
  Key : Type
  Value : Type
  /-- One thing that is wrong with a mapping. -/
  Finding : Type
  /-- What a YAML text stands for.  A text that is not well formed is refused with a message. -/
  read : String → Except (Raised String) (Content (List (Key × Value)))
  /-- The settings that a mapping gives. -/
  check : List (Key × Value) → Except (Raised (List Finding)) Settings
  /-- The wording of findings. -/
  describe : List Finding → String

end Settings
end TeenyBasic
