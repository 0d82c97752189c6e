import TeenyBasic.Files.Access
import TeenyBasic.Text.Lines
import TeenyBasic.Text.Utf8
import TeenyBasic.CProgram

/-!
# Compiling files

A source file is read as UTF-8 with any line ends and put into C, and the code is written to the
output file.  Directories on the way to the output file are made as needed.  Nothing is written
unless the whole program is correct.
-/

namespace TeenyBasic
namespace Compilation

open Files

/-- Why bytes of a file could not be had as text. -/
inductive ReadFault
  | access (fault : AccessFault)
  | encoding (fault : Text.Utf8.Fault)
  deriving DecidableEq, Repr

def ReadFault.message : ReadFault → String
  | access fault => fault.message
  | encoding fault => fault.message

/-- Why a file was not compiled. -/
inductive Failure
  | missingSource (source : Path)
  | unreadableSource (source : Path) (fault : ReadFault)
  | faultyProgram (source : Path) (diagnostic : Diagnostic)
  | unwritableOutput (output : Path) (fault : AccessFault)
  deriving DecidableEq, Repr

def Failure.message : Failure → String
  | missingSource source => "Source file not found: " ++ source.text
  | unreadableSource source fault =>
      "Could not read file " ++ source.text ++ ": " ++ fault.message
  | faultyProgram source diagnostic => source.text ++ ": " ++ diagnostic.message
  | unwritableOutput output fault =>
      "Cannot write output file '" ++ output.text ++ "': " ++ fault.message

/-- What ends an attempt without a result: a failure that is reported, or a path that is no path
at all. -/
inductive Stop
  | failure (failure : Failure)
  | nullCharacter
  deriving DecidableEq, Repr

/-- The text of bytes, with line feeds for all line ends. -/
def textOf (bytes : List UInt8) : Except Text.Utf8.Fault String :=
  match Text.Utf8.decode bytes with
  | .ok text => .ok (String.ofList (Text.unifyLineEnds text.toList))
  | .error fault => .error fault

variable {m : Type → Type} [Monad m] [FileAccess m]

def readText (path : Path) : m (Except ReadFault String) := do
  match (← readBytes path) with
  | .error fault => return .error (.access fault)
  | .ok bytes =>
      match textOf bytes with
      | .ok text => return .ok text
      | .error fault => return .error (.encoding fault)

def sourceText (source : Path) : m (Except Stop String) := do
  match (← readText source) with
  | .ok text => return .ok text
  | .error (.access .nullCharacter) => return .error .nullCharacter
  | .error (.access (.system .missing _)) => return .error (.failure (.missingSource source))
  | .error fault => return .error (.failure (.unreadableSource source fault))

def writeStop (output : Path) : AccessFault → Stop
  | .nullCharacter => .nullCharacter
  | fault => .failure (.unwritableOutput output fault)

def writeOutput (output : Path) (code : String) : m (Except Stop Unit) := do
  match (← ensureDirectories output.parent output.parent.names.length) with
  | .error fault => return .error (writeStop output fault)
  | .ok () =>
      match (← writeBytes output (Text.Utf8.encode code)) with
      | .error fault => return .error (writeStop output fault)
      | .ok () => return .ok ()

/-- Compiles a source file to an output file and gives the code. -/
def run (precision : Int) (source output : Path) : m (Except Stop String) := do
  match (← sourceText source) with
  | .error stop => return .error stop
  | .ok text =>
      match CProgram.ofSource precision text with
      | .error diagnostic => return .error (.failure (.faultyProgram source diagnostic))
      | .ok code =>
          match (← writeOutput output code) with
          | .error stop => return .error stop
          | .ok () => return .ok code

end Compilation
end TeenyBasic
