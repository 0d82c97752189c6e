import TeenyBasic.Files.Access

/-!
# A tree of files

Files and directories as a value.  A node of the tree is known by the names on the way from the
root to it, and the root is a directory that is always there.  `FileTree.locate` follows a path
name by name: a name must lead into a directory unless it is the last, and two dots lead one
level up.

Writing to a file empties it first.  A tree may be short of room (`Shortage`), and then a file is
left with the bytes that went in before the system refused the rest.
-/

namespace TeenyBasic
namespace Files

inductive Entry
  | directory
  | file (bytes : List UInt8)
  deriving DecidableEq, Repr

/-- A limit on what can be written: so many bytes go into a file, and the rest is refused. -/
structure Shortage where
  room : Nat
  fault : SystemFault
  deriving DecidableEq, Repr

/-- A tree of files with a working directory. -/
structure FileTree where
  /-- The names on the way to each node, and the node. -/
  entries : List (List String × Entry)
  /-- The names on the way to the working directory, which need not be there any more. -/
  working : List String
  shortage : Option Shortage := none

namespace FileTree

def nodeAt? (tree : FileTree) (place : List String) : Option Entry :=
  if place.isEmpty then some .directory else tree.entries.lookup place

def put (place : List String) (entry : Entry) :
    List (List String × Entry) → List (List String × Entry)
  | [] => [(place, entry)]
  | old :: rest => if old.1 = place then (place, entry) :: rest else old :: put place entry rest

def set (tree : FileTree) (place : List String) (entry : Entry) : FileTree :=
  { tree with entries := put place entry tree.entries }

/-- Looking up a place after something was put somewhere. -/
@[simp] theorem lookup_put (place other : List String) (entry : Entry)
    (entries : List (List String × Entry)) :
    (put place entry entries).lookup other =
      if other = place then some entry else entries.lookup other := by
  induction entries with
  | nil =>
      by_cases same : other = place
      · simp [put, same]
      · have differs : (other == place) = false := by simp [same]
        simp [put, List.lookup_cons, same, differs]
  | cons old rest induction =>
      obtain ⟨oldPlace, oldEntry⟩ := old
      by_cases here : oldPlace = place
      · subst here
        by_cases same : other = oldPlace
        · simp [put, same]
        · have differs : (other == oldPlace) = false := by simp [same]
          simp [put, List.lookup_cons, same, differs]
      · by_cases same : other = oldPlace
        · subst same
          simp [put, here]
        · have differs : (other == oldPlace) = false := by simp [same]
          simp [put, here, List.lookup_cons, differs, induction]

/-- A change at one place below the root is seen there and nowhere else. -/
@[simp] theorem nodeAt?_set (tree : FileTree) {place : List String} (below : place ≠ [])
    (entry : Entry) (other : List String) :
    (tree.set place entry).nodeAt? other =
      if other = place then some entry else tree.nodeAt? other := by
  by_cases atRoot : other = []
  · subst atRoot
    simp [nodeAt?, below.symm]
  · simp [nodeAt?, set, lookup_put, atRoot]

inductive Location
  /-- To a node. -/
  | present (place : List String) (entry : Entry)
  /-- To nothing, in a directory where something can be made. -/
  | vacant (place : List String)
  /-- Nowhere. -/
  | refused (fault : SystemFault)
  deriving DecidableEq, Repr

/-- The most bytes that a name may have. -/
def greatestName : Nat := 255

/-- Follows names from a place that leads to the given node. -/
def follow (tree : FileTree) : List String → Entry → List String → Location
  | place, entry, [] => .present place entry
  | _, .file _, _ :: _ => .refused .notDirectory
  | place, .directory, ".." :: names => tree.follow place.dropLast .directory names
  | place, .directory, name :: names =>
      if greatestName < name.utf8ByteSize then .refused .nameTooLong
      else
        let next := place ++ [name]
        match tree.nodeAt? next with
        | some entry => tree.follow next entry names
        | none =>
            if names.isEmpty && tree.nodeAt? place = some .directory then .vacant next
            else .refused .missing

/-- The fewest bytes that are too many for the text of a path. -/
def pathLimit : Nat := 4096

def startOf (tree : FileTree) (path : Path) : List String :=
  match path.anchor with
  | .working => tree.working
  | .root => []
  | .doubleRoot => []

def locate (tree : FileTree) (path : Path) : Location :=
  if pathLimit ≤ path.text.utf8ByteSize then .refused .nameTooLong
  else tree.follow (tree.startOf path) .directory path.names

def readBytes (tree : FileTree) (path : Path) : Except AccessFault (List UInt8) :=
  if path.holdsNull then .error .nullCharacter
  else
    match tree.locate path with
    | .present _ (.file bytes) => .ok bytes
    | .present _ .directory => .error (.system .isDirectory (some path))
    | .vacant _ => .error (.system .missing (some path))
    | .refused fault => .error (.system fault (some path))

/-- What the system says to some bytes, and those that there is room for. -/
def accept (tree : FileTree) (bytes : List UInt8) : Except AccessFault Unit × List UInt8 :=
  match tree.shortage with
  | none => (.ok (), bytes)
  | some shortage =>
      if bytes.length ≤ shortage.room then (.ok (), bytes)
      else (.error (.system shortage.fault none), bytes.take shortage.room)

def fill (tree : FileTree) (place : List String) (bytes : List UInt8) :
    Except AccessFault Unit × FileTree :=
  let (result, written) := tree.accept bytes
  (result, tree.set place (.file written))

/-- Makes or empties the file that a path leads to and writes to it. -/
def writeBytes (tree : FileTree) (path : Path) (bytes : List UInt8) :
    Except AccessFault Unit × FileTree :=
  if path.holdsNull then (.error .nullCharacter, tree)
  else
    match tree.locate path with
    | .present _ .directory => (.error (.system .isDirectory (some path)), tree)
    | .present place (.file _) => tree.fill place bytes
    | .vacant place => tree.fill place bytes
    | .refused fault => (.error (.system fault (some path)), tree)

def makeDirectory (tree : FileTree) (path : Path) : Except AccessFault FileTree :=
  if path.holdsNull then .error .nullCharacter
  else
    match tree.locate path with
    | .present _ _ => .error (.system .alreadyThere (some path))
    | .vacant place => .ok (tree.set place .directory)
    | .refused fault => .error (.system fault (some path))

/-- Whether a path leads to a node that passes a test.  A path that leads to nothing does not, and
neither does one with a null character; a name that is too long is refused. -/
def leadsTo (tree : FileTree) (test : Entry → Bool) (path : Path) : Except AccessFault Bool :=
  if path.holdsNull then .ok false
  else
    match tree.locate path with
    | .present _ entry => .ok (test entry)
    | .vacant _ => .ok false
    | .refused .nameTooLong => .error (.system .nameTooLong (some path))
    | .refused _ => .ok false

def isDirectoryEntry : Entry → Bool
  | .directory => true
  | .file _ => false

def workingDirectory (tree : FileTree) : Except AccessFault Path :=
  match tree.nodeAt? tree.working with
  | some .directory => .ok ⟨.root, tree.working⟩
  | _ => .error (.system .missing none)

end FileTree

/-- Programs on files run on a tree of files that they change. -/
abbrev OnTree : Type → Type :=
  StateM FileTree

/-- Makes a change to the tree unless it is refused. -/
def OnTree.change (attempt : FileTree → Except AccessFault FileTree) :
    OnTree (Except AccessFault Unit) :=
  fun tree =>
    match attempt tree with
    | .ok changed => (.ok (), changed)
    | .error fault => (.error fault, tree)

instance : FileAccess OnTree where
  workingDirectory := fun tree => (tree.workingDirectory, tree)
  readBytes path := fun tree => (tree.readBytes path, tree)
  writeBytes path bytes := fun tree => tree.writeBytes path bytes
  makeDirectory path := OnTree.change fun tree => tree.makeDirectory path
  isDirectory path := fun tree => (tree.leadsTo FileTree.isDirectoryEntry path, tree)
  isThere path := fun tree => (tree.leadsTo (fun _ => true) path, tree)

end Files
end TeenyBasic
