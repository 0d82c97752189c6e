import Mathlib.Data.Set.Function
import TeenyBasic.Machine

/-!
# Renaming variables

A name directly behind `LABEL` or `GOTO` belongs to a label, every other name to a variable.
`renameVariables` gives the variables other names and leaves the labels alone.  Whoever reads tokens
asks for the kinds of tokens and looks up the values of variables, but compares no name with a text
of its own, so readers read renamed tokens as they read the old ones (`agree_expression`), and a
complaint about a name becomes the same complaint about the new name.
-/

namespace TeenyBasic

/-- Whether a name directly behind a token of this kind belongs to a label. -/
def Kind.callsLabel : Kind → Bool
  | keyword .labelWord => true
  | keyword .gotoWord => true
  | _ => false

/-- The token with another name, if it is a name. -/
def Token.renamed (rename : String → String) (token : Token) : Token :=
  match token.lexeme with
  | .identifier name => ⟨.identifier (rename name), rename token.text, token.line⟩
  | _ => token

/-- Tokens with other names of variables, given whether a name in front belongs to a label. -/
def renameFrom (rename : String → String) : Bool → List Token → List Token
  | _, [] => []
  | label, token :: rest =>
      (if label then token else token.renamed rename) ::
        renameFrom rename token.kind.callsLabel rest

def renameVariables (rename : String → String) (tokens : List Token) : List Token :=
  renameFrom rename false tokens

/-- The names of variables, given whether a name in front belongs to a label. -/
def variablesFrom : Bool → List Token → List String
  | _, [] => []
  | label, token :: rest =>
      match label, token.lexeme with
      | false, .identifier name => name :: variablesFrom false rest
      | _, _ => variablesFrom token.kind.callsLabel rest

def variableNames (tokens : List Token) : List String :=
  variablesFrom false tokens

/-- What a token of the kind is called after the renaming, given what it was called. -/
def Kind.renamedText (rename : String → String) (kind : Kind) (text : String) : String :=
  if kind = .identifier then rename text else text

/-- The same complaint, about the new name. -/
def GrammarFault.renamed (rename : String → String) : GrammarFault → GrammarFault
  | expected wanted found => expected wanted found
  | invalidStatement found text => invalidStatement found (found.renamedText rename text)
  | missingRelation found text => missingRelation found (found.renamedText rename text)
  | unexpectedOperand found text => unexpectedOperand found (found.renamedText rename text)

@[inherit_doc GrammarFault.renamed]
def NamingFault.renamed (rename : String → String) : NamingFault → NamingFault
  | unassignedVariable name => unassignedVariable (rename name)
  | repeatedLabel name => repeatedLabel name
  | undeclaredLabel name => undeclaredLabel name

@[inherit_doc GrammarFault.renamed]
def Fault.renamed (rename : String → String) : Fault → Fault
  | lexical fault => lexical fault
  | grammar fault => grammar (fault.renamed rename)
  | naming fault => naming (fault.renamed rename)

/-- The same complaint on the same line, about the new name. -/
def Diagnostic.renamed (rename : String → String) (diagnostic : Diagnostic) : Diagnostic :=
  ⟨diagnostic.line, diagnostic.fault.renamed rename⟩

/-- The same values in the same order, under the new names. -/
def Symbols.renamed (rename : String → String) (symbols : Symbols) : Symbols :=
  ⟨symbols.entries.map fun entry => (rename entry.1, entry.2)⟩

/-- New names that are different for different variables. -/
structure Renaming where
  rename : String → String
  names : Set String
  injective : names.InjOn rename

namespace Renaming

/-- The token gets its new name, unless it is none or belongs to a label. -/
inductive Maps (naming : Renaming) : Bool → Token → Token → Prop
  | name {name text : String} {line : Int} : name ∈ naming.names →
      Maps naming false ⟨.identifier name, text, line⟩
        ⟨.identifier (naming.rename name), naming.rename text, line⟩
  | label {name text : String} {line : Int} :
      Maps naming true ⟨.identifier name, text, line⟩ ⟨.identifier name, text, line⟩
  | other {label : Bool} {token : Token} : token.kind ≠ .identifier →
      Maps naming label token token

/-- The variables among the tokens get their new names. -/
inductive MapsAll (naming : Renaming) : Bool → List Token → List Token → Prop
  | nil {label : Bool} : MapsAll naming label [] []
  | cons {label : Bool} {token token' : Token} {rest rest' : List Token} :
      naming.Maps label token token' →
      MapsAll naming token.kind.callsLabel rest rest' →
      MapsAll naming label (token :: rest) (token' :: rest')

/-- Both readers fail with the same complaint, or both succeed with related results. -/
inductive Agree (naming : Renaming) {α β : Type} (related : α → β → Prop) :
    Except Diagnostic α → Except Diagnostic β → Prop
  | ok {value : α} {value' : β} :
      related value value' → Agree naming related (.ok value) (.ok value')
  | error {diagnostic diagnostic' : Diagnostic} :
      diagnostic' = diagnostic.renamed naming.rename →
      Agree naming related (.error diagnostic) (.error diagnostic')

def Behind (naming : Renaming) {α : Type} (first second : α × List Token) : Prop :=
  first.1 = second.1 ∧ naming.MapsAll false first.2 second.2

variable {naming : Renaming} {label : Bool} {token token' : Token} {tokens tokens' : List Token}

theorem Agree.cases {α β : Type} {related : α → β → Prop} {first : Except Diagnostic α}
    {second : Except Diagnostic β} (agree : naming.Agree related first second) :
    (∃ diagnostic, first = .error diagnostic ∧
      second = .error (diagnostic.renamed naming.rename)) ∨
    ∃ value value', first = .ok value ∧ second = .ok value' ∧ related value value' := by
  cases agree with
  | ok values => exact .inr ⟨_, _, rfl, rfl, values⟩
  | error complaint => exact .inl ⟨_, rfl, congrArg _ complaint⟩

namespace Maps

theorem kind_eq (maps : naming.Maps label token token') : token'.kind = token.kind := by
  cases maps <;> rfl

theorem line_eq (maps : naming.Maps label token token') : token'.line = token.line := by
  cases maps <;> rfl

theorem text_eq (maps : naming.Maps false token token') :
    token'.text = token.kind.renamedText naming.rename token.text := by
  cases maps with
  | name _ => rfl
  | other outside => rw [Kind.renamedText, if_neg outside]

theorem isNewline_eq (maps : naming.Maps label token token') :
    token'.isNewline = token.isNewline := by
  rw [Token.isNewline, Token.isNewline, maps.kind_eq]

/-- A token other than a name stays. -/
theorem eq_of_kind (maps : naming.Maps label token token') (outside : token.kind ≠ .identifier) :
    token' = token := by
  cases maps with
  | name _ => exact absurd rfl outside
  | label => rfl
  | other _ => rfl

theorem expected (maps : naming.Maps label token token') (kind : Kind) :
    Diagnostic.expected kind token' =
      (Diagnostic.expected kind token).renamed naming.rename := by
  rw [Diagnostic.expected, maps.kind_eq, maps.line_eq]
  rfl

theorem invalidStatement (maps : naming.Maps false token token') :
    Diagnostic.invalidStatement token' =
      (Diagnostic.invalidStatement token).renamed naming.rename := by
  rw [Diagnostic.invalidStatement, maps.kind_eq, maps.line_eq, maps.text_eq]
  rfl

theorem missingRelation (maps : naming.Maps false token token') :
    Diagnostic.missingRelation token' =
      (Diagnostic.missingRelation token).renamed naming.rename := by
  rw [Diagnostic.missingRelation, maps.kind_eq, maps.line_eq, maps.text_eq]
  rfl

theorem unexpectedOperand (maps : naming.Maps false token token') :
    Diagnostic.unexpectedOperand token' =
      (Diagnostic.unexpectedOperand token).renamed naming.rename := by
  rw [Diagnostic.unexpectedOperand, maps.kind_eq, maps.line_eq, maps.text_eq]
  rfl

end Maps

private theorem maps_label (token : Token) : naming.Maps true token token := by
  obtain ⟨lexeme, text, line⟩ := token
  cases lexeme with
  | identifier name => exact .label
  | _ => exact .other (by simp [Token.kind, Lexeme.kind])

theorem mapsAll_renameFrom
    (known : ∀ name ∈ variablesFrom label tokens, name ∈ naming.names) :
    naming.MapsAll label tokens (renameFrom naming.rename label tokens) := by
  induction tokens generalizing label with
  | nil => exact .nil
  | cons token rest induction =>
    obtain ⟨lexeme, text, line⟩ := token
    cases label with
    | true =>
      refine .cons (maps_label _) (induction ?_)
      simpa only [variablesFrom] using known
    | false =>
      cases lexeme with
      | identifier name =>
        simp only [variablesFrom, List.mem_cons, forall_eq_or_imp] at known
        exact .cons (.name known.1) (induction known.2)
      | _ => exact .cons (.other (by simp [Token.kind, Lexeme.kind])) (induction known)

namespace MapsAll

theorem length_eq (maps : naming.MapsAll label tokens tokens') :
    tokens'.length = tokens.length := by
  induction maps with
  | nil => rfl
  | cons _ _ induction => rw [List.length_cons, List.length_cons, induction]

theorem dropWhile (maps : naming.MapsAll false tokens tokens') :
    naming.MapsAll false (tokens.dropWhile Token.isNewline)
      (tokens'.dropWhile Token.isNewline) := by
  induction tokens generalizing tokens' with
  | nil =>
    cases maps
    exact .nil
  | cons token rest induction =>
    cases maps with
    | @cons _ _ token' _ rest' here further =>
      cases ended : token.isNewline with
      | false =>
        have inside : token'.isNewline = false := here.isNewline_eq.trans ended
        rw [List.dropWhile_cons_of_neg (by simp [ended]),
          List.dropWhile_cons_of_neg (by simp [inside])]
        exact .cons here further
      | true =>
        have newline : token.kind = .newline := of_decide_eq_true ended
        rw [List.dropWhile_cons_of_pos ended,
          List.dropWhile_cons_of_pos (here.isNewline_eq.trans ended)]
        rw [newline] at further
        exact induction further

theorem drop (maps : naming.MapsAll label tokens tokens') (count : Nat) :
    ∃ label', naming.MapsAll label' (tokens.drop count) (tokens'.drop count) := by
  induction count generalizing label tokens tokens' with
  | zero => exact ⟨label, maps⟩
  | succ count induction =>
    cases maps with
    | nil => exact ⟨label, .nil⟩
    | cons _ further => exact induction further

/-- Where a token other than a name stands, it does not matter what stands in front of it. -/
theorem drop_of_kind (maps : naming.MapsAll label tokens tokens') {place : Nat}
    (here : tokens[place]? = some token) (outside : token.kind ≠ .identifier) :
    naming.MapsAll false (tokens.drop place) (tokens'.drop place) := by
  obtain ⟨label', dropped⟩ := maps.drop place
  rw [← List.head?_drop] at here
  generalize tokens.drop place = behind at here dropped ⊢
  generalize tokens'.drop place = behind' at dropped ⊢
  cases dropped with
  | nil => exact .nil
  | cons first further =>
    obtain rfl := Option.some.inj here
    rw [first.eq_of_kind outside]
    exact .cons (.other outside) further

/-- Both lists begin with the same string, or none of them begins with a string. -/
theorem string_cases (maps : naming.MapsAll label tokens tokens') :
    (∃ content text line rest rest', tokens = ⟨.string content, text, line⟩ :: rest ∧
      tokens' = ⟨.string content, text, line⟩ :: rest' ∧ naming.MapsAll false rest rest') ∨
    (∀ content text line rest, tokens = ⟨.string content, text, line⟩ :: rest → False) ∧
      ∀ content text line rest, tokens' = ⟨.string content, text, line⟩ :: rest → False := by
  cases maps with
  | nil => exact .inr ⟨nofun, nofun⟩
  | @cons _ token _ _ _ here further =>
    cases here with
    | name _ => exact .inr ⟨nofun, nofun⟩
    | label => exact .inr ⟨nofun, nofun⟩
    | other _ =>
      obtain ⟨lexeme, text, line⟩ := token
      cases lexeme with
      | string content => exact .inl ⟨content, text, line, _, _, rfl, rfl, further⟩
      | _ => exact .inr ⟨nofun, nofun⟩

end MapsAll

section Readers

variable (line : Int)

theorem agree_expect (kind : Kind) (quiet : kind.callsLabel = false)
    (maps : naming.MapsAll label tokens tokens') :
    naming.Agree (naming.MapsAll false) ((Ending.eof line).expect kind tokens)
      ((Ending.eof line).expect kind tokens') := by
  cases maps with
  | nil => exact .error rfl
  | cons here further =>
    simp only [Ending.expect, here.kind_eq]
    split
    · next found =>
      rw [found, quiet] at further
      exact .ok further
    · exact .error (here.expected kind)

theorem agree_expectLineEnd (maps : naming.MapsAll label tokens tokens') :
    naming.Agree (naming.MapsAll false) ((Ending.eof line).expectLineEnd tokens)
      ((Ending.eof line).expectLineEnd tokens') := by
  rcases (agree_expect line .newline rfl maps).cases with
    ⟨diagnostic, refused, refused'⟩ | ⟨rest, rest', taken, taken', behind⟩
  · simp only [Ending.expectLineEnd, refused, refused']
    exact .error rfl
  · simp only [Ending.expectLineEnd, taken, taken']
    exact .ok behind.dropWhile

theorem expectName_of_kind (outside : token.kind ≠ .identifier) (rest : List Token) :
    (Ending.eof line).expectName (token :: rest) = .error (.expected .identifier token) := by
  obtain ⟨lexeme, text, here⟩ := token
  cases lexeme <;> first | rfl | exact absurd rfl outside

/-- Where a variable is needed, the new name is found. -/
theorem agree_expectName_variable (maps : naming.MapsAll false tokens tokens') :
    naming.Agree
      (fun found found' => found.1 ∈ naming.names ∧ found'.1 = naming.rename found.1 ∧
        naming.MapsAll false found.2.2 found'.2.2)
      ((Ending.eof line).expectName tokens) ((Ending.eof line).expectName tokens') := by
  cases maps with
  | nil => exact .error rfl
  | cons here further =>
    cases here with
    | name known => exact .ok ⟨known, rfl, further⟩
    | other outside =>
      rw [expectName_of_kind line outside, expectName_of_kind line outside]
      exact .error rfl

/-- Where a label is needed, the old name is found. -/
theorem agree_expectName_label (maps : naming.MapsAll true tokens tokens') :
    naming.Agree
      (fun found found' => found'.1 = found.1 ∧ found'.2.1 = found.2.1 ∧
        naming.MapsAll false found.2.2 found'.2.2)
      ((Ending.eof line).expectName tokens) ((Ending.eof line).expectName tokens') := by
  cases maps with
  | nil => exact .error rfl
  | cons here further =>
    cases here with
    | label => exact .ok ⟨rfl, rfl, further⟩
    | other outside =>
      rw [expectName_of_kind line outside, expectName_of_kind line outside]
      exact .error rfl

theorem refuseFront_missingRelation (maps : naming.MapsAll false tokens tokens') :
    (Ending.eof line).refuseFront .missingRelation tokens' =
      ((Ending.eof line).refuseFront .missingRelation tokens).renamed naming.rename := by
  cases maps with
  | nil => rfl
  | cons here _ => exact here.missingRelation

/-- Numbers and signs mean the same, and so do variables under their new names. -/
structure SameMeaning (naming : Renaming) {α : Type} (meaning meaning' : Meaning α) : Prop where
  number : meaning'.number = meaning.number
  lookup : ∀ name ∈ naming.names,
    meaning'.lookup (naming.rename name) = meaning.lookup name
  positive : meaning'.positive = meaning.positive
  negative : meaning'.negative = meaning.negative

variable {α : Type} {meaning meaning' : Meaning α} (same : naming.SameMeaning meaning meaning')
include same

private theorem agree_primary (maps : naming.Maps false token token') :
    naming.Agree Eq (Formula.primary meaning token) (Formula.primary meaning' token') := by
  cases maps with
  | @name name _ _ known =>
    simp only [Formula.primary, same.lookup name known]
    split
    · exact .ok rfl
    · exact .error rfl
  | other outside =>
    simp only [Formula.primary, same.number]
    split
    · exact .ok rfl
    · next found => exact absurd (congrArg Lexeme.kind found) outside
    · exact .error (Maps.other outside).unexpectedOperand

theorem agree_primaryBehind (sign : α → α) (maps : naming.MapsAll false tokens tokens') :
    naming.Agree naming.Behind (Formula.primaryBehind meaning (.eof line) sign tokens)
      (Formula.primaryBehind meaning' (.eof line) sign tokens') := by
  cases maps with
  | nil => exact .error rfl
  | @cons _ token _ _ _ here further =>
    rcases (agree_primary same here).cases with
      ⟨diagnostic, refused, refused'⟩ | ⟨value, _, taken, taken', rfl⟩
    · simp only [Formula.primaryBehind, refused, refused']
      exact .error rfl
    · have operand : token.kind.callsLabel = false := by
        obtain ⟨lexeme, text, line⟩ := token
        cases lexeme <;> first | rfl | cases taken
      simp only [Formula.primaryBehind, taken, taken']
      exact .ok ⟨rfl, operand ▸ further⟩

/-- A sign is no name, so it stays what it is. -/
theorem sign?_eq (maps : naming.Maps false token token') :
    Formula.sign? meaning' token'.lexeme = Formula.sign? meaning token.lexeme := by
  cases maps with
  | name _ => rfl
  | other _ =>
    obtain ⟨lexeme, text, line⟩ := token
    cases lexeme with
    | arithmetic operator =>
      cases operator with
      | plus => exact congrArg some same.positive
      | minus => exact congrArg some same.negative
      | _ => rfl
    | _ => rfl

theorem agree_operand (maps : naming.MapsAll false tokens tokens') :
    naming.Agree naming.Behind (Formula.operand meaning (.eof line) tokens)
      (Formula.operand meaning' (.eof line) tokens') := by
  cases maps with
  | nil => exact .error rfl
  | @cons _ token _ _ _ here further =>
    simp only [Formula.operand, sign?_eq same here]
    split
    · next signed =>
      have quiet : token.kind.callsLabel = false := by
        obtain ⟨lexeme, text, line⟩ := token
        cases lexeme <;> first | rfl | cases signed
      exact agree_primaryBehind line same _ (quiet ▸ further)
    · exact agree_primaryBehind line same id (.cons here further)

private theorem agree_operandsAfter (accepts : Operator → Bool)
    (maps : naming.MapsAll false tokens tokens') :
    naming.Agree naming.Behind (Formula.operandsAfter accepts meaning (.eof line) tokens)
      (Formula.operandsAfter accepts meaning' (.eof line) tokens') := by
  induction size : tokens.length using Nat.strongRecOn generalizing tokens tokens' with
  | ind length induction =>
  subst size
  cases maps with
  | nil =>
    rw [Formula.operandsAfter, Formula.operandsAfter]
    exact .ok ⟨rfl, .nil⟩
  | @cons _ token token' rest rest' here further =>
    have same_operator : token'.lexeme.operator? = token.lexeme.operator? := by
      cases here <;> rfl
    rw [Formula.operandsAfter, Formula.operandsAfter, same_operator]
    cases found : token.lexeme.operator? with
    | none => exact .ok ⟨rfl, .cons here further⟩
    | some operator =>
      simp only
      cases accepted : accepts operator with
      | false =>
        simp only [Bool.false_eq_true, if_false]
        exact .ok ⟨rfl, .cons here further⟩
      | true =>
        have quiet : token.kind.callsLabel = false := by
          obtain ⟨lexeme, text, line⟩ := token
          cases lexeme <;> first | rfl | cases found
        simp only [if_true]
        rcases (agree_operand line same (quiet ▸ further)).cases with
          ⟨diagnostic, refused, refused'⟩ |
          ⟨⟨value, after⟩, ⟨_, after'⟩, taken, taken', rfl, behind⟩
        · rw [refused, refused']
          exact .error rfl
        · have shorter := Nat.lt_succ_of_lt (Formula.length_operand_lt taken)
          rw [taken, taken']
          rcases (induction _ shorter behind rfl).cases with
            ⟨diagnostic, refused, refused'⟩ |
            ⟨⟨others, last⟩, ⟨_, last'⟩, read, read', rfl, behind⟩
          · simp only [refused, refused']
            exact .error rfl
          · simp only [read, read']
            exact .ok ⟨rfl, behind⟩

theorem agree_read (accepts : Operator → Bool) (maps : naming.MapsAll false tokens tokens') :
    naming.Agree naming.Behind (Formula.read accepts meaning (.eof line) tokens)
      (Formula.read accepts meaning' (.eof line) tokens') := by
  rcases (agree_operand line same maps).cases with
    ⟨diagnostic, refused, refused'⟩ | ⟨⟨first, rest⟩, ⟨_, rest'⟩, taken, taken', rfl, behind⟩
  · simp only [Formula.read, refused, refused']
    exact .error rfl
  · simp only [Formula.read, taken, taken']
    rcases (agree_operandsAfter line same accepts behind).cases with
      ⟨diagnostic, refused, refused'⟩ | ⟨⟨others, last⟩, ⟨_, last'⟩, read, read', rfl, behind⟩
    · simp only [refused, refused']
      exact .error rfl
    · simp only [read, read']
      exact .ok ⟨rfl, behind⟩

theorem agree_expression (maps : naming.MapsAll false tokens tokens') :
    naming.Agree naming.Behind (Formula.expression meaning (.eof line) tokens)
      (Formula.expression meaning' (.eof line) tokens') :=
  agree_read line same Operator.isArithmetic maps

theorem agree_condition (maps : naming.MapsAll false tokens tokens') :
    naming.Agree naming.Behind (Formula.condition meaning (.eof line) tokens)
      (Formula.condition meaning' (.eof line) tokens') := by
  rcases (agree_read line same (fun _ => true) maps).cases with
    ⟨diagnostic, refused, refused'⟩ | ⟨⟨formula, rest⟩, ⟨_, rest'⟩, read, read', rfl, behind⟩
  · simp only [Formula.condition, refused, refused']
    exact .error rfl
  · simp only [Formula.condition, read, read']
    split
    · exact .ok ⟨rfl, behind⟩
    · exact .error (refuseFront_missingRelation line behind)

end Readers

section Values

variable {symbols : Symbols} {entries : List (String × Float)} {name : String}

/-- All variables with values belong to the renamed ones. -/
def Knows (naming : Renaming) (symbols : Symbols) : Prop :=
  ∀ entry ∈ symbols.entries, entry.1 ∈ naming.names

theorem get?_renamed (knows : naming.Knows symbols) (known : name ∈ naming.names) :
    (symbols.renamed naming.rename).get? (naming.rename name) = symbols.get? name := by
  obtain ⟨entries⟩ := symbols
  simp only [Symbols.renamed, Symbols.get?]
  induction entries with
  | nil => rfl
  | cons entry rest induction =>
    obtain ⟨here, further⟩ := List.forall_mem_cons.mp knows
    have same : naming.rename name = naming.rename entry.1 ↔ name = entry.1 :=
      naming.injective.eq_iff known here
    have compared : (naming.rename name == naming.rename entry.1) = (name == entry.1) := by
      rw [Bool.eq_iff_iff, beq_iff_eq, beq_iff_eq, same]
    rw [List.map_cons, List.lookup_cons, List.lookup_cons, compared, induction further]

private theorem put_renamed (knows : naming.Knows ⟨entries⟩) (known : name ∈ naming.names)
    (value : Float) :
    Symbols.put (naming.rename name) value
        (entries.map fun entry => (naming.rename entry.1, entry.2)) =
      (Symbols.put name value entries).map fun entry => (naming.rename entry.1, entry.2) := by
  induction entries with
  | nil => rfl
  | cons entry rest induction =>
    obtain ⟨here, further⟩ := List.forall_mem_cons.mp knows
    have same : naming.rename entry.1 = naming.rename name ↔ entry.1 = name :=
      naming.injective.eq_iff here known
    simp only [List.map_cons, Symbols.put, same]
    split
    · rfl
    · rw [List.map_cons, induction further]

theorem set_renamed (knows : naming.Knows symbols) (known : name ∈ naming.names) (value : Float) :
    (symbols.renamed naming.rename).set (naming.rename name) value =
      (symbols.set name value).renamed naming.rename :=
  congrArg Symbols.mk (put_renamed knows known value)

theorem declare_renamed (knows : naming.Knows symbols) (known : name ∈ naming.names) :
    (symbols.renamed naming.rename).declare (naming.rename name) =
      (symbols.declare name).renamed naming.rename := by
  unfold Symbols.declare
  rw [get?_renamed knows known, set_renamed knows known]
  split <;> rfl

theorem Knows.set (knows : naming.Knows symbols) (known : name ∈ naming.names) (value : Float) :
    naming.Knows (symbols.set name value) := by
  obtain ⟨entries⟩ := symbols
  unfold Knows Symbols.set
  induction entries with
  | nil => simpa [Symbols.put] using known
  | cons entry rest induction =>
    obtain ⟨here, further⟩ := List.forall_mem_cons.mp knows
    simp only [Symbols.put]
    split
    · exact List.forall_mem_cons.mpr ⟨known, further⟩
    · exact List.forall_mem_cons.mpr ⟨here, induction further⟩

theorem Knows.declare (knows : naming.Knows symbols) (known : name ∈ naming.names) :
    naming.Knows (symbols.declare name) := by
  unfold Symbols.declare
  split
  · exact knows
  · exact knows.set known 0

end Values

end Renaming

end TeenyBasic
