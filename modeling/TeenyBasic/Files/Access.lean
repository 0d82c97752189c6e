import TeenyBasic.Files.Path
import TeenyBasic.Text.Quoted

/-!
# Access to files

What a program needs of its surroundings: reading and writing whole files, making directories,
and knowing the working directory.  Programs are written against the class `FileAccess`, so that
they can be run on real files and on a tree of files that is a value.
-/

namespace TeenyBasic
namespace Files

inductive SystemFault
  | missing
  | alreadyThere
  | notDirectory
  | isDirectory
  | nameTooLong
  /-- Any other refusal, with its number and wording. -/
  | other (number : Nat) (text : String)
  deriving DecidableEq, Repr

namespace SystemFault

def number : SystemFault → Nat
  | missing => 2
  | alreadyThere => 17
  | notDirectory => 20
  | isDirectory => 21
  | nameTooLong => 36
  | other number _ => number

def text : SystemFault → String
  | missing => "No such file or directory"
  | alreadyThere => "File exists"
  | notDirectory => "Not a directory"
  | isDirectory => "Is a directory"
  | nameTooLong => "File name too long"
  | other _ text => text

def ofNumber (number : Nat) (text : String) : SystemFault :=
  match number with
  | 2 => missing
  | 17 => alreadyThere
  | 20 => notDirectory
  | 21 => isDirectory
  | 36 => nameTooLong
  | _ => other number text

end SystemFault

/-- Why files could not be used. -/
inductive AccessFault
  /-- The path holds a null character and is no path at all. -/
  | nullCharacter
  /-- The system refuses, most often because of a path. -/
  | system (fault : SystemFault) (path : Option Path)
  deriving DecidableEq, Repr

def AccessFault.message : AccessFault → String
  | nullCharacter => "embedded null byte"
  | system fault path =>
      let place := match path with
        | some path => ": " ++ Text.quoted path.text
        | none => ""
      "[Errno " ++ toString fault.number ++ "] " ++ fault.text ++ place

/-- Access to files. -/
class FileAccess (m : Type → Type) where
  /-- The working directory, which may be gone. -/
  workingDirectory : m (Except AccessFault Path)
  /-- All bytes of a file. -/
  readBytes : Path → m (Except AccessFault (List UInt8))
  /-- Makes or empties a file and writes bytes to it.  It may fail with some of them written. -/
  writeBytes : Path → List UInt8 → m (Except AccessFault Unit)
  /-- Makes one directory. -/
  makeDirectory : Path → m (Except AccessFault Unit)
  /-- Whether a path leads to a directory. -/
  isDirectory : Path → m (Except AccessFault Bool)
  /-- Whether a path leads anywhere. -/
  isThere : Path → m (Except AccessFault Bool)

export FileAccess (workingDirectory readBytes writeBytes makeDirectory isDirectory isThere)

variable {m : Type → Type} [Monad m] [FileAccess m]

/-- Makes a directory where there is none yet. -/
def ensureDirectory (path : Path) : m (Except AccessFault Unit) := do
  match (← makeDirectory path) with
  | .ok () => return .ok ()
  | .error fault =>
      if fault = .nullCharacter || fault = .system .missing (some path) then return .error fault
      else
        match (← isDirectory path) with
        | .ok true => return .ok ()
        | .ok false => return .error fault
        | .error fault => return .error fault

/-- Makes the directory that the first names of a path lead to, and those it lies in. -/
def ensureDirectories (path : Path) : Nat → m (Except AccessFault Unit)
  | 0 => ensureDirectory (path.upTo 0)
  | count + 1 => do
      let directory := path.upTo (count + 1)
      match (← ensureDirectory directory) with
      | .ok () => return .ok ()
      | .error fault =>
          if fault = .system .missing (some directory) then
            match (← ensureDirectories path count) with
            | .ok () => ensureDirectory directory
            | .error fault => return .error fault
          else return .error fault

end Files
end TeenyBasic
