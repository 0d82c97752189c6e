/-!
# Variables

The values of variables, in the order in which the variables first got one.  Assigning again
keeps a variable's place.
-/

namespace TeenyBasic

/-- Variables with their values, oldest first. -/
structure Symbols where
  entries : List (String × Float)

namespace Symbols

def empty : Symbols :=
  ⟨[]⟩

def get? (symbols : Symbols) (name : String) : Option Float :=
  symbols.entries.lookup name

/-- Puts a value at the place of a name, or behind all others if the name is new. -/
def put (name : String) (value : Float) : List (String × Float) → List (String × Float)
  | [] => [(name, value)]
  | entry :: rest =>
      if entry.1 = name then (name, value) :: rest else entry :: put name value rest

def set (symbols : Symbols) (name : String) (value : Float) : Symbols :=
  ⟨put name value symbols.entries⟩

/-- Gives a variable the value zero unless it has one. -/
def declare (symbols : Symbols) (name : String) : Symbols :=
  if (symbols.get? name).isSome then symbols else symbols.set name 0

@[simp] theorem lookup_put (name other : String) (value : Float) (entries : List (String × Float)) :
    (put name value entries).lookup other =
      if other = name then some value else entries.lookup other := by
  induction entries with
  | nil =>
      by_cases same : other = name
      · simp [put, same]
      · have differs : (other == name) = false := by simp [same]
        simp [put, List.lookup_cons, same, differs]
  | cons entry rest induction =>
      obtain ⟨key, old⟩ := entry
      by_cases here : key = name
      · subst here
        by_cases same : other = key
        · simp [put, same]
        · have differs : (other == key) = false := by simp [same]
          simp [put, List.lookup_cons, same, differs]
      · by_cases same : other = key
        · subst same
          simp [put, here]
        · have differs : (other == key) = false := by simp [same]
          simp [put, here, List.lookup_cons, differs, induction]

@[simp] theorem get?_empty (name : String) : empty.get? name = none := rfl

/-- After an assignment the variable has its new value and every other variable its old one. -/
@[simp] theorem get?_set (symbols : Symbols) (name other : String) (value : Float) :
    (symbols.set name value).get? other =
      if other = name then some value else symbols.get? other :=
  lookup_put name other value symbols.entries

end Symbols

end TeenyBasic
