import TeenyBasic.Compilation
import TeenyBasic.Settings.Library

/-!
# Settings files

Settings are kept in a YAML file.  A file without a value is checked as an empty mapping, and a
directory without a settings file has the default settings.
-/

namespace TeenyBasic
namespace Settings

open Files

/-- The name of the settings file in a directory. -/
def fileName : String := ".teeny.yaml"

/-- Why settings were not loaded. -/
inductive Failure (library : Library)
  | missingFile (path : Path)
  | unreadableFile (path : Path) (fault : AccessFault)
  | malformedFile (path : Path) (message : String)
  | notMapping (path : Path)
  | invalid (path : Path) (findings : List library.Finding)

def Failure.message {library : Library} : Failure library → String
  | missingFile path => "Config file not found: " ++ path.text
  | unreadableFile path fault =>
      "Cannot read config file '" ++ path.text ++ "': " ++ fault.message
  | malformedFile path message =>
      "Invalid YAML in config file '" ++ path.text ++ "': " ++ message
  | notMapping path => path.text ++ ": project config must be a YAML mapping"
  | invalid path findings =>
      "Invalid config file '" ++ path.text ++ "': " ++ library.describe findings

/-- What ends an attempt without settings: a failure that is reported, or something that no one
takes care of. -/
inductive Stop (library : Library)
  | failure (failure : Failure library)
  | access (fault : AccessFault)
  | encoding (fault : Text.Utf8.Fault)
  | foreign (error : ForeignError)

namespace Library

variable (library : Library)

def checkFile (path : Path) (entries : List (library.Key × library.Value)) :
    Except (Stop library) Settings :=
  match library.check entries with
  | .ok settings => .ok settings
  | .error (.declared findings) => .error (.failure (.invalid path findings))
  | .error (.foreign error) => .error (.foreign error)

def readFile (path : Path) (text : String) : Except (Stop library) Settings :=
  match library.read text with
  | .error (.declared message) => .error (.failure (.malformedFile path message))
  | .error (.foreign error) => .error (.foreign error)
  | .ok .nothing => library.checkFile path []
  | .ok (.mapping entries) => library.checkFile path entries
  | .ok .other => .error (.failure (.notMapping path))

variable {m : Type → Type} [Monad m] [FileAccess m]

def load (path : Path) : m (Except (Stop library) Settings) := do
  match (← Compilation.readText path) with
  | .ok text => return library.readFile path text
  | .error (.encoding fault) => return .error (.encoding fault)
  | .error (.access .nullCharacter) => return .error (.access .nullCharacter)
  | .error (.access (.system .missing _)) => return .error (.failure (.missingFile path))
  | .error (.access fault) => return .error (.failure (.unreadableFile path fault))

/-- Loads the settings file in a directory, if there is one. -/
def find (directory : Path) : m (Except (Stop library) Settings) := do
  let path := directory.child fileName
  match (← isThere path) with
  | .error fault => return .error (.access fault)
  | .ok false => return .ok default
  | .ok true => library.load path

end Library

end Settings
end TeenyBasic
