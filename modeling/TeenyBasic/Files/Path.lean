/-!
# Paths

A path is a row of names, taken from the working directory or from the root.  Empty names and
single dots are dropped when a path is read; two dots are kept, because what they lead to depends
on the files.  Two slashes in front are kept apart from one.
-/

namespace TeenyBasic
namespace Files

inductive Anchor
  | working
  | root
  | doubleRoot
  deriving DecidableEq, Repr

/-- A path in normal form. -/
structure Path where
  anchor : Anchor
  names : List String
  deriving DecidableEq, Repr

def splitSlashes : List Char → List (List Char)
  | [] => [[]]
  | character :: rest =>
      if character = '/' then [] :: splitSlashes rest
      else
        match splitSlashes rest with
        | [] => [[character]]
        | part :: parts => (character :: part) :: parts

namespace Path

/-- Where a text starts: exactly two slashes differ from one, and three or more do not. -/
def anchorOf : List Char → Anchor
  | '/' :: '/' :: '/' :: _ => .root
  | '/' :: '/' :: _ => .doubleRoot
  | '/' :: _ => .root
  | _ => .working

def ofText (text : String) : Path where
  anchor := anchorOf text.toList
  names := ((splitSlashes text.toList).filter fun part => part ≠ [] && part ≠ ['.']).map
    String.ofList

/-- Writes a path; the working directory itself is a dot. -/
def text (path : Path) : String :=
  let names := "/".intercalate path.names
  match path.anchor with
  | .working => if path.names.isEmpty then "." else names
  | .root => "/" ++ names
  | .doubleRoot => "//" ++ names

/-- The directory that a path's last name is in. -/
def parent (path : Path) : Path :=
  { path with names := path.names.dropLast }

def child (path : Path) (name : String) : Path :=
  { path with names := path.names ++ [name] }

/-- The path that the first names of a path make. -/
def upTo (path : Path) (count : Nat) : Path :=
  { path with names := path.names.take count }

def holdsNull (path : Path) : Bool :=
  path.names.any fun name => name.toList.contains '\x00'

end Path

end Files
end TeenyBasic
