import TeenyBasic.Proofs.Grammar

/-!
# Names in the order of the tokens

Which part a name plays can be told from the word in front of it, so the names of a list of tokens
are found without a tree.  They are the names of the tree if there is one
(`Program.namings_eq`).

The names of a program are in order if every variable that is read was assigned before, no label is
declared twice, and every jump names a label.  The first two conditions can be checked name by
name, from the front: that is `Naming.Lawful`.
-/

namespace TeenyBasic

/-- The part that a name plays behind a word. -/
def Keyword.naming (name : String) : Keyword → Naming
  | letWord => .assigned name
  | inputWord => .assigned name
  | labelWord => .declared name
  | gotoWord => .jumped name
  | _ => .read name

namespace Naming

def ofTokens : List Token → List Naming
  | ⟨.keyword word, _, _⟩ :: ⟨.identifier name, _, _⟩ :: rest => word.naming name :: ofTokens rest
  | ⟨.identifier name, _, _⟩ :: rest => .read name :: ofTokens rest
  | _ :: rest => ofTokens rest
  | [] => []

def AssignedBeforeRead (namings : List Naming) : Prop :=
  ∀ before name after, namings = before ++ .read name :: after → .assigned name ∈ before

def LabelsDistinct (namings : List Naming) : Prop :=
  ∀ before name after, namings = before ++ .declared name :: after → .declared name ∉ before

def JumpsDeclared (namings : List Naming) : Prop :=
  ∀ name, .jumped name ∈ namings → .declared name ∈ namings

/-- Whether a name may stand behind the names before it, wherever jumps lead. -/
def Allowed (before : List Naming) : Naming → Prop
  | .read name => .assigned name ∈ before
  | .declared name => .declared name ∉ before
  | _ => True

/-- Every name may stand behind those before it. -/
def Lawful (before : List Naming) : List Naming → Prop
  | [] => True
  | naming :: rest => naming.Allowed before ∧ Lawful (before ++ [naming]) rest

instance decidableAllowed (before : List Naming) (naming : Naming) :
    Decidable (naming.Allowed before) :=
  match naming with
  | .read name => inferInstanceAs (Decidable (.assigned name ∈ before))
  | .declared name => inferInstanceAs (Decidable (.declared name ∉ before))
  | .assigned _ => isTrue trivial
  | .jumped _ => isTrue trivial

instance decidableLawful (before : List Naming) :
    (namings : List Naming) → Decidable (Lawful before namings)
  | [] => isTrue trivial
  | naming :: rest =>
      have := decidableLawful (before ++ [naming]) rest
      inferInstanceAs (Decidable (naming.Allowed before ∧ Lawful (before ++ [naming]) rest))

@[simp] theorem lawful_append {before first second : List Naming} :
    Lawful before (first ++ second) ↔
      Lawful before first ∧ Lawful (before ++ first) second := by
  induction first generalizing before with
  | nil => simp [Lawful]
  | cons naming rest induction => simp [Lawful, induction, and_assoc]

@[simp] theorem lawful_singleton {before : List Naming} {naming : Naming} :
    Lawful before [naming] ↔ naming.Allowed before := by
  simp [Lawful]

/-- Checking from the front checks every name against all names before it. -/
theorem lawful_iff {before namings : List Naming} :
    Lawful before namings ↔
      ∀ first naming last, namings = first ++ naming :: last →
        naming.Allowed (before ++ first) := by
  induction namings generalizing before with
  | nil => simp [Lawful]
  | cons naming rest induction =>
      rw [Lawful, induction]
      constructor
      · rintro ⟨here, later⟩ first other last split
        cases first with
        | nil =>
            simp only [List.nil_append, List.cons.injEq] at split
            obtain ⟨rfl, -⟩ := split
            simpa using here
        | cons head tail =>
            simp only [List.cons_append, List.cons.injEq] at split
            obtain ⟨rfl, split⟩ := split
            simpa using later tail other last split
      · intro all
        refine ⟨by simpa using all [] naming rest rfl, fun first other last split => ?_⟩
        simpa using all (naming :: first) other last (by simp [split])

theorem lawful_nil_iff {namings : List Naming} :
    Lawful [] namings ↔ AssignedBeforeRead namings ∧ LabelsDistinct namings := by
  rw [lawful_iff]
  constructor
  · intro all
    exact ⟨fun before name after split => all before (.read name) after split,
      fun before name after split => all before (.declared name) after split⟩
  · rintro ⟨reads, labels⟩ before naming after split
    cases naming with
    | read name => exact reads before name after split
    | declared name => exact labels before name after split
    | assigned name => trivial
    | jumped name => trivial

section Tokens

variable (text text' : String) (line line' : Int) (rest : List Token)

@[simp] theorem ofTokens_named (word : Keyword) (name : String) :
    ofTokens (⟨.keyword word, text, line⟩ :: ⟨.identifier name, text', line'⟩ :: rest) =
      word.naming name :: ofTokens rest :=
  rfl

@[simp] theorem ofTokens_identifier (name : String) :
    ofTokens (⟨.identifier name, text, line⟩ :: rest) = .read name :: ofTokens rest :=
  rfl

/-- A word that does not change what the name behind it is for. -/
@[simp] theorem ofTokens_keyword {word : Keyword} (plain : ∀ name, word.naming name = .read name) :
    ofTokens (⟨.keyword word, text, line⟩ :: rest) = ofTokens rest := by
  cases rest with
  | nil => rfl
  | cons token rest =>
      obtain ⟨lexeme, text', line'⟩ := token
      cases lexeme with
      | identifier name => rw [ofTokens_named, ofTokens_identifier, plain]
      | _ => rfl

/-- A token that is neither a word nor a name. -/
theorem ofTokens_other {lexeme : Lexeme} (notWord : ∀ word, lexeme ≠ .keyword word)
    (notName : ∀ name, lexeme ≠ .identifier name) :
    ofTokens (⟨lexeme, text, line⟩ :: rest) = ofTokens rest := by
  cases lexeme with
  | keyword word => exact absurd rfl (notWord word)
  | identifier name => exact absurd rfl (notName name)
  | _ => rfl

end Tokens

/-- A name behind other tokens is still found. -/
theorem mem_ofTokens_append {naming : Naming} {word : Keyword} {text : String} {line : Int}
    {rest : List Token} (taken : List Token)
    (member : naming ∈ ofTokens (⟨.keyword word, text, line⟩ :: rest)) :
    naming ∈ ofTokens (taken ++ ⟨.keyword word, text, line⟩ :: rest) := by
  fun_induction ofTokens taken with
  | case1 word text line name text' line' tail induction =>
      exact List.mem_cons_of_mem _ induction
  | case2 name text line tail induction => exact List.mem_cons_of_mem _ induction
  | case3 token tail notPair notName induction =>
      rw [List.cons_append, ofTokens]
      · exact induction
      · intro word text line name text' line' behind first second
        cases tail with
        | nil => simp at second
        | cons next tail =>
            simp only [List.cons_append, List.cons.injEq] at second
            exact notPair _ _ _ _ _ _ _ first (by rw [second.1])
      · exact notName
  | case4 => exact member

end Naming

namespace Grammar

variable {tokens rest : List Token}

theorem Newline.namings_eq (ends : Newline tokens rest) :
    Naming.ofTokens tokens = Naming.ofTokens rest := by
  induction ends with
  | one => simp [Naming.ofTokens_other]
  | more _ induction => simpa [Naming.ofTokens_other] using induction

theorem Primary.namings_eq {tree : Expression} (derived : Primary tokens tree rest) :
    Naming.ofTokens tokens = tree.namings ++ Naming.ofTokens rest := by
  cases derived with
  | number => simp [Naming.ofTokens_other, Expression.namings]
  | identifier => simp [Naming.ofTokens_identifier, Expression.namings]

theorem Unary.namings_eq {tree : Expression} (derived : Unary tokens tree rest) :
    Naming.ofTokens tokens = tree.namings ++ Naming.ofTokens rest := by
  cases derived with
  | unsigned derived => exact derived.namings_eq
  | positive derived | negative derived =>
      simpa [Naming.ofTokens_other, Expression.namings] using derived.namings_eq

theorem Term.namings_eq {tree : Expression} (derived : Term tokens tree rest) :
    Naming.ofTokens tokens = tree.namings ++ Naming.ofTokens rest := by
  induction derived with
  | first derived => exact derived.namings_eq
  | further _ _ derived induction =>
      simp [induction, Naming.ofTokens_other, derived.namings_eq, Expression.namings]

theorem Sum.namings_eq {tree : Expression} (derived : Sum tokens tree rest) :
    Naming.ofTokens tokens = tree.namings ++ Naming.ofTokens rest := by
  induction derived with
  | first derived => exact derived.namings_eq
  | further _ _ derived induction =>
      simp [induction, Naming.ofTokens_other, derived.namings_eq, Expression.namings]

theorem Comparison.namings_eq {tree : Condition} (derived : Comparison tokens tree rest) :
    Naming.ofTokens tokens = tree.namings ++ Naming.ofTokens rest := by
  induction derived with
  | first left right =>
      simp [left.namings_eq, Naming.ofTokens_other, right.namings_eq, Condition.namings]
  | further _ right induction =>
      simp [induction, Naming.ofTokens_other, right.namings_eq, Condition.namings]

theorem Line.namings_eq {statement : Statement} (derived : Line tokens statement rest) :
    Naming.ofTokens tokens = statement.namings ++ Naming.ofTokens rest := by
  cases derived with
  | printText =>
      rw [Naming.ofTokens_keyword _ _ _ (fun _ => rfl)]
      simp [Naming.ofTokens_other, Statement.namings, Action.namings]
  | printValue derived =>
      rw [Naming.ofTokens_keyword _ _ _ (fun _ => rfl), derived.namings_eq]
      rfl
  | label | goto | input =>
      simp [Naming.ofTokens_named, Statement.namings, Action.namings, Keyword.naming]
  | assign derived =>
      simp [Naming.ofTokens_named, Naming.ofTokens_other, Statement.namings, Action.namings,
        Keyword.naming, derived.namings_eq]

theorem Statements.namings_eq {statements : List Statement}
    (derived : Statements tokens statements rest) :
    Naming.ofTokens tokens = Statement.namingsOf statements ++ Naming.ofTokens rest := by
  induction derived with
  | none => rfl
  | line first ends _ induction =>
      simp [first.namings_eq, ends.namings_eq, induction, Statement.namingsOf]
  | @block kind _ _ _ _ _ _ _ _ _ _ _ _ _ _ _ condition ends _ ends' _ bodyInduction induction =>
      have opener : ∀ name, kind.opener.naming name = .read name := by cases kind <;> intro <;> rfl
      have separator : ∀ name, kind.separator.naming name = .read name := by
        cases kind <;> intro <;> rfl
      have closer : ∀ name, kind.closer.naming name = .read name := by cases kind <;> intro <;> rfl
      rw [Naming.ofTokens_keyword _ _ _ opener, condition.namings_eq,
        Naming.ofTokens_keyword _ _ _ separator, ends.namings_eq, bodyInduction,
        Naming.ofTokens_keyword _ _ _ closer, ends'.namings_eq, induction]
      simp [Statement.namingsOf, Statement.namings]

/-- The names of a program are those of its tree. -/
theorem Program.namings_eq {tree : List Statement} (derived : Program tokens tree) :
    Naming.ofTokens tokens = Statement.namingsOf tree := by
  induction derived with
  | statements derived =>
      rw [derived.namings_eq]
      exact List.append_nil _
  | newline _ induction => simpa [Naming.ofTokens_other] using induction

end Grammar

end TeenyBasic
