import Mathlib.Data.Option.Basic
import TeenyBasic.Proofs.CursorSafety
import TeenyBasic.Proofs.Renaming

/-!
# Running programs with renamed variables

A renaming leaves every token at its place and every label under its name, so the table of jumps
stays as it is (`collect_eq`).  Two machines that differ in the names of variables only therefore
stand at the same place after every line (`steps_step`), with the same values under the new names,
and their runs end alike (`run?_renameVariables`).

A jump leads to a `LABEL` and a loop back to its `WHILE`: neither is a name, so no cursor ever comes
to stand behind a word that would make a label of the next name.
-/

namespace TeenyBasic

/-- The second run ended like the first, with the values of variables under their new names. -/
structure Machine.Stopped.Renamed (rename : String → String) (stopped stopped' : Stopped) :
    Prop where
  output : stopped'.machine.output = stopped.machine.output
  targets : stopped'.machine.targets = stopped.machine.targets
  input : stopped'.machine.input = stopped.machine.input
  symbols : stopped'.machine.symbols = stopped.machine.symbols.renamed rename
  fault : stopped'.fault = stopped.fault.map (Diagnostic.renamed rename)

namespace Renaming

variable {naming : Renaming} {label : Bool} {token token' : Token} {tokens tokens' : List Token}

/-- A label is declared under its old name. -/
theorem declare_eq (maps : naming.MapsAll true tokens tokens') (destinations : Destinations)
    (place : Nat) : destinations.declare place tokens' = destinations.declare place tokens := by
  cases maps with
  | nil => rfl
  | @cons _ token _ _ _ here _ =>
    have kept : ∀ rest rest' : List Token, destinations.declare place (token :: rest') =
        destinations.declare place (token :: rest) := by
      intro rest rest'
      obtain ⟨lexeme, text, line⟩ := token
      cases lexeme <;> rfl
    cases here with
    | label => exact kept _ _
    | other _ => exact kept _ _

/-- The table of jumps stays as it is. -/
theorem collect_eq (maps : naming.MapsAll label tokens tokens') (destinations : Destinations)
    (blocks : List (Block × Nat)) (place : Nat) :
    Destinations.collect destinations blocks place tokens' =
      Destinations.collect destinations blocks place tokens := by
  induction maps generalizing destinations blocks place with
  | nil => rfl
  | @cons _ token _ _ _ here further induction =>
    cases here with
    | name _ => exact induction destinations blocks (place + 1)
    | label => exact induction destinations blocks (place + 1)
    | other _ =>
      obtain ⟨lexeme, text, line⟩ := token
      cases lexeme with
      | keyword word =>
        cases word with
        | labelWord =>
          simp only [Destinations.collect, declare_eq further]
          split
          · rfl
          · next noted _ => exact induction noted blocks (place + 1)
        | _ => exact induction _ _ (place + 1)
      | _ => exact induction _ _ (place + 1)

private theorem ofTokens_eq (maps : naming.MapsAll label tokens tokens') :
    Destinations.ofTokens tokens' = Destinations.ofTokens tokens := by
  rw [Destinations.ofTokens, Destinations.ofTokens, maps.length_eq, collect_eq maps]

/-- The programs differ in the names of variables only. -/
structure Programs (naming : Renaming) (program program' : Program) : Prop where
  body : naming.MapsAll false program.body program'.body
  lastLine : program'.lastLine = program.lastLine
  destinations : program'.destinations = program.destinations

/-- The last token keeps its kind and its line. -/
theorem MapsAll.getLast? (maps : naming.MapsAll label tokens tokens') :
    tokens'.getLast?.map (fun token => (token.kind, token.line)) =
      tokens.getLast?.map (fun token => (token.kind, token.line)) := by
  induction maps with
  | nil => rfl
  | @cons _ token token' rest rest' here further induction =>
    cases further with
    | nil => simp [here.kind_eq, here.line_eq]
    | cons _ _ => simpa only [List.getLast?_cons_cons] using induction

theorem MapsAll.dropLast (maps : naming.MapsAll label tokens tokens') :
    naming.MapsAll label tokens.dropLast tokens'.dropLast := by
  induction maps with
  | nil => exact .nil
  | cons here further induction =>
    cases further with
    | nil => exact .nil
    | cons _ _ => exact .cons here induction

/-- Both lists of tokens are refused for the same reason, or both are programs. -/
theorem load_cases (maps : naming.MapsAll false tokens tokens') :
    (∃ fault, Program.load tokens = .error fault ∧ Program.load tokens' = .error fault) ∨
    ∃ program program', Program.load tokens = .ok program ∧ Program.load tokens' = .ok program' ∧
      naming.Programs program program' := by
  have ends := maps.getLast?
  simp only [Program.load]
  cases found : tokens.getLast? with
  | none =>
    rw [found, Option.map_none, Option.map_eq_none_iff] at ends
    exact .inl ⟨_, rfl, by rw [ends]⟩
  | some last =>
    rw [found, Option.map_some] at ends
    obtain ⟨last', found', same⟩ := Option.map_eq_some_iff.mp ends
    obtain ⟨kind, line⟩ := Prod.mk.inj same
    have whole := List.dropLast_append_getLast? last found
    have whole' := List.dropLast_append_getLast? last' found'
    simp only [found', kind]
    split
    · simp only [Program.assemble, whole, whole', ofTokens_eq maps]
      cases Destinations.ofTokens tokens with
      | error diagnostic => exact .inl ⟨_, rfl, rfl⟩
      | ok destinations => exact .inr ⟨_, _, rfl, rfl, maps.dropLast, line, rfl⟩
    · exact .inl ⟨_, rfl, rfl⟩

/-- The machines differ in the names of variables only. -/
structure Machines (naming : Renaming) (machine machine' : Machine) : Prop where
  program : naming.Programs machine.program machine'.program
  rest : naming.MapsAll false machine.rest machine'.rest
  blocks : machine'.blocks = machine.blocks
  symbols : machine'.symbols = machine.symbols.renamed naming.rename
  knows : naming.Knows machine.symbols
  targets : machine'.targets = machine.targets
  input : machine'.input = machine.input
  output : machine'.output = machine.output

/-- The steps lead to machines that differ in the names of variables only. -/
inductive Steps (naming : Renaming) : Step → Step → Prop
  | next {machine machine' : Machine} : naming.Machines machine machine' →
      Steps naming (.next machine) (.next machine')
  | halt {machine machine' : Machine} : naming.Machines machine machine' →
      Steps naming (.halt machine) (.halt machine')
  | fault {machine machine' : Machine} {diagnostic diagnostic' : Diagnostic} :
      naming.Machines machine machine' → diagnostic' = diagnostic.renamed naming.rename →
      Steps naming (.fault machine diagnostic) (.fault machine' diagnostic')

namespace Machines

variable {machine machine' : Machine} {name : String}

theorem ending_eq (machines : naming.Machines machine machine') :
    machine'.program.ending = machine.program.ending :=
  congrArg Ending.eof machines.program.lastLine

theorem place_eq (machines : naming.Machines machine machine') :
    machine'.place = machine.place := by
  rw [Machine.place, Machine.place, machines.program.body.length_eq, machines.rest.length_eq]

theorem sameMeaning (machines : naming.Machines machine machine') :
    naming.SameMeaning machine.meaning machine'.meaning where
  number := rfl
  lookup := by
    intro name known
    simp only [Machine.meaning, machines.symbols]
    exact get?_renamed machines.knows known
  positive := rfl
  negative := rfl

theorem print (machines : naming.Machines machine machine') (text : String) :
    naming.Machines (machine.print text) (machine'.print text) :=
  { machines with output := congrArg (· ++ (text ++ "\n")) machines.output }

theorem assign (machines : naming.Machines machine machine') (known : name ∈ naming.names)
    (value : Float) :
    naming.Machines (machine.assign name value) (machine'.assign (naming.rename name) value) :=
  { machines with
    symbols := by
      simp only [Machine.assign, machines.symbols]
      exact set_renamed machines.knows known value
    knows := machines.knows.set known value }

theorem declare (machines : naming.Machines machine machine') (known : name ∈ naming.names) :
    naming.Machines { machine with symbols := machine.symbols.declare name }
      { machine' with symbols := machine'.symbols.declare (naming.rename name) } :=
  { machines with
    symbols := by
      simp only [machines.symbols]
      exact declare_renamed machines.knows known
    knows := machines.knows.declare known }

theorem inputTo (machines : naming.Machines machine machine') (known : name ∈ naming.names) :
    naming.Machines (machine.inputTo name) (machine'.inputTo (naming.rename name)) := by
  unfold Machine.inputTo
  rw [machines.input]
  exact { machines.assign known _ with input := rfl }

theorem noteTarget (machines : naming.Machines machine machine') (name : String) :
    naming.Machines (machine.noteTarget name) (machine'.noteTarget name) := by
  unfold Machine.noteTarget
  rw [machines.targets]
  split
  · exact machines
  · exact { machines with targets := rfl }

end Machines

section Lines

variable {machine machine' : Machine} (machines : naming.Machines machine machine')
include machines

theorem steps_finishLine (maps : naming.MapsAll label tokens tokens') :
    naming.Steps (machine.finishLine tokens) (machine'.finishLine tokens') := by
  unfold Machine.finishLine
  rw [machines.ending_eq]
  rcases (agree_expectLineEnd machine.program.lastLine maps).cases with
    ⟨diagnostic, refused, refused'⟩ | ⟨rest, rest', taken, taken', behind⟩
  · simp only [Program.ending, refused, refused']
    exact .fault machines rfl
  · simp only [Program.ending, taken, taken']
    exact .next { machines with rest := behind }

private theorem steps_printLine (maps : naming.MapsAll false tokens tokens') :
    naming.Steps (machine.printLine tokens) (machine'.printLine tokens') := by
  rcases maps.string_cases with
    ⟨content, _, _, _, _, rfl, rfl, behind⟩ | ⟨noString, noString'⟩
  · exact steps_finishLine (machines.print content) behind
  · rw [Machine.printLine.eq_2 _ _ noString, Machine.printLine.eq_2 _ _ noString',
      machines.ending_eq]
    rcases (agree_expression machine.program.lastLine machines.sameMeaning maps).cases with
      ⟨diagnostic, refused, refused'⟩ |
      ⟨⟨formula, rest⟩, ⟨_, rest'⟩, read, read', rfl, behind⟩
    · simp only [Program.ending, refused, refused']
      exact .fault machines rfl
    · simp only [Program.ending, read, read']
      exact steps_finishLine (machines.print _) behind

private theorem agree_header (block : Block) (maps : naming.MapsAll false tokens tokens') :
    naming.Agree naming.Behind (machine.header block tokens) (machine'.header block tokens') := by
  simp only [Machine.header, machines.ending_eq]
  rcases (agree_condition machine.program.lastLine machines.sameMeaning maps).cases with
    ⟨diagnostic, refused, refused'⟩ |
    ⟨⟨condition, rest⟩, ⟨_, rest'⟩, read, read', rfl, behind⟩
  · simp only [Program.ending, refused, refused']
    exact .error rfl
  · simp only [Program.ending, read, read']
    have quiet : (Kind.keyword block.separator).callsLabel = false := by cases block <;> rfl
    have agree := agree_expect machine.program.lastLine (.keyword block.separator) quiet behind
    rcases agree.cases with
      ⟨diagnostic, refused, refused'⟩ | ⟨rest, rest', taken, taken', behind⟩
    · simp only [refused, refused']
      exact .error rfl
    · simp only [taken, taken']
      rcases (agree_expectLineEnd machine.program.lastLine behind).cases with
        ⟨diagnostic, refused, refused'⟩ | ⟨rest, rest', ended, ended', behind⟩
      · simp only [refused, refused']
        exact .error rfl
      · simp only [ended, ended']
        exact .ok ⟨rfl, behind⟩

/-- A block is left behind its closing word, wherever the table finds that. -/
theorem steps_skipBlock (block : Block) :
    naming.Steps (machine.skipBlock block) (machine'.skipBlock block) := by
  have quiet : (Kind.keyword block.closer).callsLabel = false := by cases block <;> rfl
  obtain ⟨_, dropped⟩ := machines.program.body.drop
    (machine.program.destinations.closingFrom machine.place).toNat
  simp only [Machine.skipBlock, machines.ending_eq, machines.program.destinations,
    machines.place_eq, Program.tokensFrom]
  rcases (agree_expect machine.program.lastLine (.keyword block.closer) quiet dropped).cases with
    ⟨diagnostic, refused, refused'⟩ | ⟨rest, rest', taken, taken', behind⟩
  · simp only [Program.ending, refused, refused']
    exact .fault machines rfl
  · simp only [Program.ending, taken, taken']
    exact steps_finishLine machines behind

theorem steps_openLine (block : Block) (maps : naming.MapsAll false tokens tokens') :
    naming.Steps (machine.openLine block tokens) (machine'.openLine block tokens') := by
  rcases (agree_header machines block maps).cases with
    ⟨diagnostic, refused, refused'⟩ |
    ⟨⟨condition, rest⟩, ⟨_, rest'⟩, read, read', rfl, behind⟩
  · simp only [Machine.openLine, refused, refused']
    exact .fault machines rfl
  · simp only [Machine.openLine, read, read', machines.place_eq, machines.blocks]
    split
    · exact .next { machines with rest := behind, blocks := rfl }
    · exact steps_skipBlock machines block

private theorem steps_labelLine (maps : naming.MapsAll true tokens tokens') :
    naming.Steps (machine.labelLine tokens) (machine'.labelLine tokens') := by
  unfold Machine.labelLine
  rw [machines.ending_eq]
  rcases (agree_expectName_label machine.program.lastLine maps).cases with
    ⟨diagnostic, refused, refused'⟩ | ⟨found, found', taken, taken', -, -, behind⟩
  · simp only [Program.ending, refused, refused']
    exact .fault machines rfl
  · simp only [Program.ending, taken, taken']
    exact steps_finishLine machines behind

/-- A jump finds its label under the old name. -/
theorem steps_gotoLine (tabled : machine.program.Tabled)
    (maps : naming.MapsAll true tokens tokens') :
    naming.Steps (machine.gotoLine tokens) (machine'.gotoLine tokens') := by
  unfold Machine.gotoLine
  rw [machines.ending_eq]
  rcases (agree_expectName_label machine.program.lastLine maps).cases with
    ⟨diagnostic, refused, refused'⟩ |
    ⟨⟨_, _, rest⟩, ⟨name, line, rest'⟩, taken, taken', rfl, rfl, behind⟩
  · simp only [Program.ending, refused, refused']
    exact .fault machines rfl
  · simp only [Program.ending, taken, taken']
    rcases (agree_expect machine.program.lastLine .newline rfl behind).cases with
      ⟨diagnostic, refused, refused'⟩ | ⟨_, _, ended, ended', -⟩
    · simp only [refused, refused']
      exact .fault machines rfl
    · simp only [ended, ended']
      have noted := machines.noteTarget name
      have program : (machine.noteTarget name).program = machine.program :=
        Machine.program_noteTarget name
      rw [noted.program.destinations]
      cases found : (machine.noteTarget name).program.destinations.label? name with
      | none => exact .fault noted rfl
      | some place =>
        rw [program] at found
        obtain ⟨word, _, here, labels, -, -⟩ := (Destinations.label?_eq_some_iff tabled).mp found
        have outside : word.kind ≠ .identifier := by simp [labels]
        rw [← program] at here
        exact .next
          { noted with rest := noted.program.body.drop_of_kind here outside, blocks := rfl }

private theorem steps_letLine (maps : naming.MapsAll false tokens tokens') :
    naming.Steps (machine.letLine tokens) (machine'.letLine tokens') := by
  unfold Machine.letLine
  rw [machines.ending_eq]
  rcases (agree_expectName_variable machine.program.lastLine maps).cases with
    ⟨diagnostic, refused, refused'⟩ |
    ⟨⟨name, line, rest⟩, ⟨_, line', rest'⟩, taken, taken', known, rfl, behind⟩
  · simp only [Program.ending, refused, refused']
    exact .fault machines rfl
  · have declared := machines.declare known
    simp only [Program.ending, taken, taken', machines.program.lastLine]
    rcases (agree_expect machine.program.lastLine .assign rfl behind).cases with
      ⟨diagnostic, refused, refused'⟩ | ⟨rest, rest', taken, taken', behind⟩
    · simp only [refused, refused']
      exact .fault declared rfl
    · simp only [taken, taken']
      rcases (agree_expression machine.program.lastLine declared.sameMeaning behind).cases with
        ⟨diagnostic, refused, refused'⟩ |
        ⟨⟨formula, rest⟩, ⟨_, rest'⟩, read, read', rfl, behind⟩
      · simp only [refused, refused']
        exact .fault declared rfl
      · simp only [read, read']
        exact steps_finishLine (declared.assign known _) behind

private theorem steps_inputLine (maps : naming.MapsAll false tokens tokens') :
    naming.Steps (machine.inputLine tokens) (machine'.inputLine tokens') := by
  unfold Machine.inputLine
  rw [machines.ending_eq]
  rcases (agree_expectName_variable machine.program.lastLine maps).cases with
    ⟨diagnostic, refused, refused'⟩ |
    ⟨⟨name, line, rest⟩, ⟨_, line', rest'⟩, taken, taken', known, rfl, behind⟩
  · simp only [Program.ending, refused, refused']
    exact .fault machines rfl
  · simp only [Program.ending, taken, taken']
    exact steps_finishLine (machines.inputTo known) behind

private theorem steps_line (tabled : machine.program.Tabled)
    (maps : naming.MapsAll false (token :: tokens) (token' :: tokens')) :
    naming.Steps (machine.line token tokens) (machine'.line token' tokens') := by
  cases maps with
  | cons here further =>
    cases here with
    | name known => exact .fault machines (Maps.name known).invalidStatement
    | other outside =>
      have invalid : naming.Steps (.fault machine (.invalidStatement token))
          (.fault machine' (.invalidStatement token)) :=
        .fault machines (Maps.other outside).invalidStatement
      obtain ⟨lexeme, text, line⟩ := token
      cases lexeme with
      | keyword word =>
        cases word with
        | printWord => exact steps_printLine machines further
        | ifWord => exact steps_openLine machines .conditional further
        | whileWord => exact steps_openLine machines .loop further
        | labelWord => exact steps_labelLine machines further
        | gotoWord => exact steps_gotoLine machines tabled further
        | letWord => exact steps_letLine machines further
        | inputWord => exact steps_inputLine machines further
        | _ => exact invalid
      | _ => exact invalid

/-- A loop leads back to its first word, which is no name. -/
theorem steps_closeLine {block : Block} {opener : Nat} (outer : List (Block × Nat))
    (opened : Machine.OpensAt machine.program.body opener block)
    (maps : naming.MapsAll false tokens tokens') :
    naming.Steps (machine.closeLine block opener outer tokens)
      (machine'.closeLine block opener outer tokens') := by
  cases block with
  | loop =>
    obtain ⟨word, here, opens⟩ := opened
    have outside : word.kind ≠ .identifier := by simp [opens]
    exact .next
      { machines with rest := machines.program.body.drop_of_kind here outside, blocks := rfl }
  | conditional =>
    have left : naming.Machines { machine with blocks := outer }
        { machine' with blocks := outer } := { machines with blocks := rfl }
    exact steps_finishLine left maps

/-- Machines that differ in the names of variables only make the same step. -/
theorem steps_step (tabled : machine.program.Tabled) (safe : machine.Safe) :
    naming.Steps machine.step machine'.step := by
  have maps := machines.rest
  have blocks := machines.blocks
  unfold Machine.step
  rw [blocks]
  generalize front : machine.rest = rest at maps
  generalize front' : machine'.rest = rest' at maps
  cases maps with
  | nil =>
    split
    · exact .halt machines
    · next opened =>
      simp only [machines.ending_eq]
      exact .fault machines rfl
    · next found _ => cases found
    · next found _ => cases found
  | @cons _ token token' rest rest' here further =>
    have line := steps_line machines tabled (.cons here further)
    cases opened : machine.blocks with
    | nil =>
      simp only [here.kind_eq]
      split
      · exact .halt machines
      · exact line
    | cons innermost outer =>
      obtain ⟨block, opener⟩ := innermost
      simp only [here.kind_eq]
      split
      · next closes =>
        have quiet : token.kind.callsLabel = false := by
          rw [closes]
          cases block <;> rfl
        have member : (block, opener) ∈ machine.blocks := opened ▸ List.mem_cons_self
        exact steps_closeLine machines outer (safe.openers block opener member) (quiet ▸ further)
      · exact line

theorem run?_rel (tabled : machine.program.Tabled) (safe : machine.Safe) (budget : Nat) :
    Option.Rel (Machine.Stopped.Renamed naming.rename) (machine.run? budget)
      (machine'.run? budget) := by
  induction budget generalizing machine machine' with
  | zero => exact .none
  | succ budget induction =>
    have step := steps_step machines tabled safe
    rw [Machine.run?, Machine.run?]
    generalize taken : machine.step = result at step ⊢
    generalize machine'.step = result' at step ⊢
    cases step with
    | next machines =>
      obtain ⟨program, safe⟩ := safe.step taken
      exact induction machines (program ▸ tabled) safe
    | halt ended =>
      exact .some ⟨ended.output, ended.targets, ended.input, ended.symbols, rfl⟩
    | fault ended complaint =>
      exact .some ⟨ended.output, ended.targets, ended.input, ended.symbols, congrArg some complaint⟩

end Lines

private theorem machines_start {program program' : Program}
    (programs : naming.Programs program program')
    (input : List Char) :
    naming.Machines (.start program input) (.start program' input) where
  program := programs
  rest := programs.body.dropWhile
  blocks := rfl
  symbols := rfl
  knows := by simp [Machine.start, Symbols.empty, Knows]
  targets := rfl
  input := rfl
  output := rfl

end Renaming

namespace Sample

/-- A label, and behind it an assignment that reads a variable without a value. -/
def shadowedTokens : List Token := [
  ⟨.keyword .labelWord, "LABEL", 1⟩, ⟨.identifier "loop", "loop", 1⟩, ⟨.newline, "\n", 1⟩,
  ⟨.keyword .letWord, "LET", 2⟩, ⟨.identifier "x", "x", 2⟩, ⟨.assign, "=", 2⟩,
  ⟨.identifier "y", "y", 2⟩, ⟨.newline, "\n", 2⟩, Token.eofAt 3]

def shadowed : Program :=
  ⟨shadowedTokens.dropLast, 3, ⟨[], [("loop", 0)], 8⟩⟩

theorem load_shadowed : Program.load shadowedTokens = .ok shadowed := rfl

/-- One variable gets the name of the label, the other one the name of the first. -/
def shadow (name : String) : String :=
  if name = "x" then "loop" else if name = "y" then "x" else name

private theorem injOn_shadow : Set.InjOn shadow {name | name ∈ variableNames shadowedTokens} := by
  have names : variableNames shadowedTokens = ["x", "y"] := rfl
  rw [names]
  intro first member second member'
  revert first second
  simp [shadow]

end Sample

/-- **Renaming variables is harmless.**  Give the variables of any tokens other names, different
ones for different variables, and leave the labels alone, also if a variable gets the name of a
label.  Then both are refused for the same reason, or both run alike on every input: as long as each
other and with the same output, the same jumps and the same rest of the input, with the same values
in the same order under the new names, and with the same complaint on the same line about the new
name. -/
theorem Program.run?_renameVariables (tokens : List Token) {rename : String → String}
    (injective : Set.InjOn rename {name | name ∈ variableNames tokens}) :
    (∃ fault, load tokens = .error fault ∧
      load (renameVariables rename tokens) = .error fault) ∨
    ∃ program program', load tokens = .ok program ∧
      load (renameVariables rename tokens) = .ok program' ∧
      ∀ (input : List Char) (budget : Nat),
        Option.Rel (Machine.Stopped.Renamed rename) ((Machine.start program input).run? budget)
          ((Machine.start program' input).run? budget) := by
  let naming : Renaming := ⟨rename, {name | name ∈ variableNames tokens}, injective⟩
  have maps : naming.MapsAll false tokens (renameVariables rename tokens) :=
    Renaming.mapsAll_renameFrom fun _ member => member
  rcases naming.load_cases maps with refused | ⟨program, program', loaded, loaded', programs⟩
  · exact .inl refused
  · refine .inr ⟨program, program', loaded, loaded', ?_⟩
    intro input budget
    have machines := Renaming.machines_start programs input
    exact Renaming.run?_rel machines (tabled_of_load loaded) (Machine.safe_start program input)
      budget

/-- The assigned variable gets the name of the label, and the complaint is about the new name of the
other one. -/
theorem Program.run?_renameVariables_shadow :
    ∃ program stopped, load (renameVariables Sample.shadow Sample.shadowedTokens) = .ok program ∧
      (Machine.start program []).run? 2 = some stopped ∧
      stopped.machine.symbols = ⟨[("loop", 0)]⟩ ∧
      stopped.fault = some (.unassignedVariable "x" 2) := by
  rcases run?_renameVariables Sample.shadowedTokens Sample.injOn_shadow with
    ⟨fault, refused, -⟩ | ⟨program, program', loaded, loaded', alike⟩
  · cases refused.symm.trans Sample.load_shadowed
  · obtain rfl : Sample.shadowed = program := Except.ok.inj (Sample.load_shadowed.symm.trans loaded)
    have ends := alike [] 2
    have ran : ∃ stopped, (Machine.start Sample.shadowed []).run? 2 = some stopped ∧
        stopped.machine.symbols = ⟨[("x", 0)]⟩ ∧
        stopped.fault = some (.unassignedVariable "y" 2) := ⟨_, rfl, rfl, rfl⟩
    obtain ⟨stopped, ran, symbols, fault⟩ := ran
    rw [ran] at ends
    generalize answer : (Machine.start program' []).run? 2 = stopped' at ends
    cases ends with
    | some renamed =>
      refine ⟨program', _, loaded', answer, ?_, ?_⟩
      · rw [renamed.symbols, symbols]
        rfl
      · rw [renamed.fault, fault]
        rfl

end TeenyBasic
