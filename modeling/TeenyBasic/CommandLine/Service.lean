import TeenyBasic.CommandLine.Console
import TeenyBasic.CommandLine.Screen
import TeenyBasic.Settings.File

/-!
# Serving requests

`serve` reads arguments and does what they ask for.  The exit code is zero on success, one if the
work failed and two if the arguments were refused.  Some troubles are not reported but end the
program on the spot; these are the `Escape`s.
-/

namespace TeenyBasic
namespace CommandLine

open Files

/-- A trouble that is not reported. -/
inductive Escape
  | access (fault : AccessFault)
  | encoding (fault : Text.Utf8.Fault)
  | foreign (error : Settings.ForeignError)
  /-- A path was asked for and nothing was given. -/
  | missingPath
  deriving DecidableEq, Repr

def Escape.message : Escape → String
  | access fault => fault.message
  | encoding fault => fault.message
  | foreign error => error.message
  | missingPath => "expected str, bytes or os.PathLike object, not list"

/-- What keeps a command from success. -/
inductive Trouble
  | reported (message : String)
  | escaped (fault : Escape)
  deriving DecidableEq, Repr

def Trouble.ofSettings {library : Settings.Library} : Settings.Stop library → Trouble
  | .failure failure => reported failure.message
  | .access fault => escaped (.access fault)
  | .encoding fault => escaped (.encoding fault)
  | .foreign error => escaped (.foreign error)

/-- The trouble of a file that was not compiled or not read. -/
def Trouble.ofCompilation : Compilation.Stop → Trouble
  | .failure failure => reported failure.message
  | .nullCharacter => escaped (.access .nullCharacter)

inductive Conclusion
  | exit (code : Nat)
  | escape (fault : Escape)
  deriving DecidableEq, Repr

variable {m : Type → Type} [Monad m] [FileAccess m] [Console m]

def printLine (text : String) : m Unit :=
  print (text ++ "\n")

def giveUp : Trouble → m Conclusion
  | .reported message => do
      complain ("Error: " ++ message ++ "\n")
      return .exit 1
  | .escaped fault => return .escape fault

/-- Loads the settings that a compilation asks for: from a named file, or from the one in the
working directory. -/
def settingsFor (library : Settings.Library) :
    Option FlagValue → m (Except Trouble Settings)
  | some .nothing => return .error (.escaped .missingPath)
  | some (.text path) => do
      return (← library.load (Path.ofText path)).mapError Trouble.ofSettings
  | none => do
      match (← workingDirectory) with
      | .error fault => return .error (.escaped (.access fault))
      | .ok directory => return (← library.find directory).mapError Trouble.ofSettings

/-- The path of the output file: the one asked for, or the one in the settings. -/
def outputPath (settings : Settings) : Option FlagValue → Except Trouble Path
  | some .nothing => .error (.escaped .missingPath)
  | some (.text path) => .ok (Path.ofText path)
  | none => .ok (Path.ofText settings.outputPath)

def compileWith (settings : Settings) (source : String) (output : Path) : m Conclusion := do
  match (← Compilation.run settings.printPrecision (Path.ofText source) output) with
  | .error stop => giveUp (.ofCompilation stop)
  | .ok code =>
      printLine "Parsing completed."
      if settings.echoCode then print code
      printLine ("Wrote output to " ++ output.text)
      return .exit 0

def compile (library : Settings.Library) (source : String)
    (output config : Option FlagValue) : m Conclusion := do
  printLine "Teeny Tiny Compiler"
  match (← settingsFor library config) with
  | .error trouble => giveUp trouble
  | .ok settings =>
      match outputPath settings output with
      | .error trouble => giveUp trouble
      | .ok output => compileWith settings source output

/-- Runs the text of a source file, which messages name as it was given. -/
def runText (source : String) (text : String) : m Conclusion := do
  match Program.ofSource text with
  | .error diagnostic => giveUp (.reported (source ++ ": " ++ diagnostic.message))
  | .ok program =>
      match (← execute program) with
      | some diagnostic => giveUp (.reported (source ++ ": " ++ diagnostic.message))
      | none =>
          printLine "Parsing completed."
          return .exit 0

def run (source : String) : m Conclusion := do
  printLine "Teeny Tiny Interpreter"
  match (← Compilation.sourceText (Path.ofText source)) with
  | .error stop => giveUp (.ofCompilation stop)
  | .ok text => runText source text

def perform (library : Settings.Library) : Request → m Conclusion
  | .help level => do
      print level.help
      return .exit 0
  | .compile source output config => compile library source output config
  | .run source => run source

def serve (edition : Edition) (library : Settings.Library) (arguments : List String) :
    m Conclusion := do
  match Request.ofArguments edition arguments with
  | .error refusal =>
      complain refusal.text
      return .exit 2
  | .ok request => perform library request

end CommandLine
end TeenyBasic
