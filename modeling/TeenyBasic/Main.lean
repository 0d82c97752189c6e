import TeenyBasic.CommandLine.Service
import TeenyBasic.Settings.Checker

/-!
# The program

Files and the console of the system, and the entry point.  A program reads its console line by
line, when it needs a line, and prints each line as it is executed.
-/

namespace TeenyBasic
namespace Terminal

open Files CommandLine

/-- The refusal with a number, which the system may give with a minus sign. -/
def refusal (number : UInt32) (text : String) : SystemFault :=
  .ofNumber (if number.toNat < 0x80000000 then number.toNat else 0x100000000 - number.toNat) text

def faultOf : IO.Error → SystemFault
  | .alreadyExists _ number text => refusal number text
  | .otherError number text => refusal number text
  | .resourceBusy number text => refusal number text
  | .resourceVanished number text => refusal number text
  | .unsupportedOperation number text => refusal number text
  | .hardwareFault number text => refusal number text
  | .unsatisfiedConstraints number text => refusal number text
  | .illegalOperation number text => refusal number text
  | .protocolError number text => refusal number text
  | .timeExpired number text => refusal number text
  | .interrupted _ number text => refusal number text
  | .noFileOrDirectory _ number text => refusal number text
  | .invalidArgument _ number text => refusal number text
  | .permissionDenied _ number text => refusal number text
  | .resourceExhausted _ number text => refusal number text
  | .inappropriateType _ number text => refusal number text
  | .noSuchThing _ number text => refusal number text
  | .unexpectedEof => .other 5 "Input/output error"
  | .userError text => .other 5 text

/-- Tries something that the system may refuse, because of a path if one is given. -/
def attempt {α : Type} (path : Option Path) (action : IO α) : IO (Except AccessFault α) := do
  if path.any Path.holdsNull then return .error .nullCharacter
  try
    return .ok (← action)
  catch error => return .error (.system (faultOf error) path)

def leadsToDirectory (path : Path) : IO Bool := do
  if path.holdsNull then return false
  try
    ((← IO.currentDir) / path.text).isDir
  catch _ => return false

/-- Opens a file, which empties it, and then writes to it. -/
def overwrite (path : Path) (bytes : List UInt8) : IO (Except AccessFault Unit) := do
  match (← attempt (some path) (IO.FS.Handle.mk path.text .write)) with
  | .error fault => return .error fault
  | .ok file =>
      attempt none do
        file.write ⟨bytes.toArray⟩
        file.flush

instance : FileAccess IO where
  workingDirectory := attempt none do return Path.ofText (← IO.currentDir).toString
  readBytes path := do
    if (← leadsToDirectory path) then return .error (.system .isDirectory (some path))
    attempt (some path) do return (← IO.FS.readBinFile path.text).toList
  writeBytes path bytes := overwrite path bytes
  makeDirectory path := attempt (some path) (IO.FS.createDir path.text)
  isDirectory path := do return .ok (← leadsToDirectory path)
  isThere path := do
    if path.holdsNull then return .ok false
    try
      return .ok (← ((← IO.currentDir) / path.text).pathExists)
    catch _ => return .ok false

/-- Whether the line to be executed next reads from the console. -/
def wantsInput (machine : Machine) : Bool :=
  match machine.rest with
  | token :: _ => token.kind = .keyword .inputWord
  | [] => false

/-- Prints what a machine has printed since the last time. -/
def flush (machine : Machine) : IO Machine := do
  let output ← IO.getStdout
  output.putStr machine.output
  output.flush
  return { machine with output := "" }

/-- Runs a machine on the console to its end. -/
partial def runMachine (machine : Machine) : IO (Option Diagnostic) := do
  let machine ←
    if wantsInput machine && machine.input.isEmpty then do
      let typed ← (← IO.getStdin).getLine
      pure { machine with input := typed.toList }
    else pure machine
  match machine.step with
  | .next machine => runMachine (← flush machine)
  | .halt machine => do
      let _ ← flush machine
      return none
  | .fault machine diagnostic => do
      let _ ← flush machine
      return some diagnostic

instance : Console IO where
  print text := do
    let output ← IO.getStdout
    output.putStr text
    output.flush
  complain text := do
    let errors ← IO.getStderr
    errors.putStr text
  execute program := runMachine (Machine.start program [])

end Terminal
end TeenyBasic

def main (arguments : List String) : IO UInt32 := do
  match (← TeenyBasic.CommandLine.serve .later TeenyBasic.Settings.standardLibrary arguments) with
  | .exit code => return code.toUInt32
  | .escape fault => do
      let errors ← IO.getStderr
      errors.putStr (fault.message ++ "\n")
      return 1
