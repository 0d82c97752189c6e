import TeenyBasic.Files.Tree
import TeenyBasic.Machine

/-!
# Consoles

What a command needs besides files: two places to write to, and a console on which programs run.
A `Desk` is all of that as a value.
-/

namespace TeenyBasic
namespace CommandLine

open Files

/-- Access to a console. -/
class Console (m : Type → Type) where
  /-- Writes to the standard output. -/
  print : String → m Unit
  /-- Writes to the standard error output. -/
  complain : String → m Unit
  /-- Runs a program on the console and gives the fault that stopped it, if one did. -/
  execute : Program → m (Option Diagnostic)

export Console (print complain execute)

/-- Files, a console and what has been written. -/
structure Desk where
  files : FileTree
  /-- What can still be read from the console. -/
  input : List Char
  output : String
  errors : String
  /-- How many lines a program may run for. -/
  budget : Nat

/-- A desk before anything is written, with text to be typed at its console. -/
def Desk.start (budget : Nat) (files : FileTree) (typed : String) : Desk where
  files := files
  input := typed.toList
  output := ""
  errors := ""
  budget := budget

/-- Work at a desk.  There is no result if a program does not end within its budget. -/
abbrev AtDesk : Type → Type :=
  StateT Desk Option

def onFiles {α : Type} (work : OnTree α) : AtDesk α :=
  fun desk =>
    let (result, files) := work desk.files
    some (result, { desk with files := files })

instance : FileAccess AtDesk where
  workingDirectory := onFiles workingDirectory
  readBytes path := onFiles (readBytes path)
  writeBytes path bytes := onFiles (writeBytes path bytes)
  makeDirectory path := onFiles (makeDirectory path)
  isDirectory path := onFiles (isDirectory path)
  isThere path := onFiles (isThere path)

instance : Console AtDesk where
  print text := fun desk => some ((), { desk with output := desk.output ++ text })
  complain text := fun desk => some ((), { desk with errors := desk.errors ++ text })
  execute program := fun desk =>
    match (Machine.start program desk.input).run? desk.budget with
    | none => none
    | some stopped =>
        some (stopped.fault,
          { desk with
            input := stopped.machine.input
            output := desk.output ++ stopped.machine.output })

end CommandLine
end TeenyBasic
