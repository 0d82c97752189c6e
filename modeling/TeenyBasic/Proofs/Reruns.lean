import TeenyBasic.Machine

/-!
# Running a program again

A machine can be run any number of times, and each run goes on at the console where the one before
has stopped.  Nothing else is left of earlier runs: a machine that is set back does what a fresh one
does at the same console.

Both this and what a run does with its input come from one comparison.  The same machine is put at
two consoles; as long as the lines that it reads are the same there, both go on alike, and each
console loses one line for each line that is read (`step_atConsole`, `run?_atConsole`).
-/

namespace TeenyBasic

namespace Text

/-- What follows the given number of lines.  Nothing follows an exhausted text. -/
def afterLines : Nat → List Char → List Char
  | 0, text => text
  | count + 1, text => afterLines count (afterFirstLine text)

/-- Lines below each other, every one with its line feed. -/
def ofLines (lines : List (List Char)) : List Char :=
  lines.flatMap fun line => line ++ ['\n']

/-- The given number of lines is read alike from two texts. -/
def SameLines : Nat → List Char → List Char → Prop
  | 0, _, _ => True
  | count + 1, text, text' =>
      firstLine text = firstLine text' ∧
        SameLines count (afterFirstLine text) (afterFirstLine text')

theorem SameLines.refl (count : Nat) (text : List Char) : SameLines count text text := by
  induction count generalizing text with
  | zero => trivial
  | succ count induction => exact ⟨rfl, induction (afterFirstLine text)⟩

theorem SameLines.mono {count fewer : Nat} {text text' : List Char}
    (same : SameLines count text text') (few : fewer ≤ count) : SameLines fewer text text' := by
  induction fewer generalizing count text text' with
  | zero => trivial
  | succ fewer induction =>
    obtain ⟨more, rfl⟩ : ∃ more, count = more + 1 := ⟨count - 1, by omega⟩
    exact ⟨same.1, induction same.2 (by omega)⟩

theorem SameLines.behind {count more : Nat} {text text' : List Char}
    (same : SameLines (count + more) text text') :
    SameLines more (afterLines count text) (afterLines count text') := by
  induction count generalizing text text' with
  | zero => rwa [Nat.zero_add] at same
  | succ count induction =>
    rw [Nat.succ_add] at same
    exact induction same.2

private theorem afterLines_add (count more : Nat) (text : List Char) :
    afterLines (count + more) text = afterLines more (afterLines count text) := by
  induction count generalizing text with
  | zero => rw [Nat.zero_add, afterLines]
  | succ count induction => rw [Nat.succ_add, afterLines, afterLines, induction]

@[simp] theorem firstLine_append {line : List Char} (single : '\n' ∉ line) (rest : List Char) :
    firstLine (line ++ '\n' :: rest) = line := by
  have within : ∀ character ∈ line, decide (character ≠ '\n') = true := by
    intro character member
    simp only [ne_eq, decide_eq_true_eq]
    rintro rfl
    exact single member
  rw [firstLine, List.takeWhile_append_of_pos within]
  simp

@[simp] theorem afterFirstLine_append {line : List Char} (single : '\n' ∉ line) (rest : List Char) :
    afterFirstLine (line ++ '\n' :: rest) = rest := by
  have within : ∀ character ∈ line, decide (character ≠ '\n') = true := by
    intro character member
    simp only [ne_eq, decide_eq_true_eq]
    rintro rfl
    exact single member
  rw [afterFirstLine, List.dropWhile_append_of_pos within]
  simp

@[simp] theorem ofLines_cons_append (line : List Char) (lines : List (List Char))
    (rest : List Char) :
    ofLines (line :: lines) ++ rest = line ++ '\n' :: (ofLines lines ++ rest) := by
  simp [ofLines]

private theorem sameLines_ofLines {lines : List (List Char)} (single : ∀ line ∈ lines, '\n' ∉ line)
    (rest rest' : List Char) :
    SameLines lines.length (ofLines lines ++ rest) (ofLines lines ++ rest') := by
  induction lines with
  | nil => trivial
  | cons line lines induction =>
    have here := single line List.mem_cons_self
    rw [ofLines_cons_append, ofLines_cons_append]
    constructor
    · rw [firstLine_append here, firstLine_append here]
    · rw [afterFirstLine_append here, afterFirstLine_append here]
      exact induction fun other member => single other (List.mem_cons_of_mem _ member)

private theorem afterLines_ofLines {lines : List (List Char)} (single : ∀ line ∈ lines, '\n' ∉ line)
    {count : Nat} (few : count ≤ lines.length) (rest : List Char) :
    afterLines count (ofLines lines ++ rest) = ofLines (lines.drop count) ++ rest := by
  induction count generalizing lines with
  | zero => rfl
  | succ count induction =>
    cases lines with
    | nil => simp at few
    | cons line lines =>
      have here := single line List.mem_cons_self
      rw [ofLines_cons_append, afterLines, afterFirstLine_append here, List.drop_succ_cons]
      apply induction
      · exact fun other member => single other (List.mem_cons_of_mem _ member)
      · simp only [List.length_cons] at few
        omega

end Text

namespace Machine

/-- The machine at a console where something was printed before and where the given text is to be
read. -/
def atConsole (printed : String) (input : List Char) (machine : Machine) : Machine :=
  { machine with output := printed ++ machine.output, input := input }

def Stopped.atConsole (printed : String) (input : List Char) (stopped : Stopped) : Stopped :=
  ⟨stopped.machine.atConsole printed input, stopped.fault⟩

end Machine

namespace Step

def atConsole (printed : String) (input : List Char) : Step → Step
  | next machine => next (machine.atConsole printed input)
  | halt machine => halt (machine.atConsole printed input)
  | fault machine diagnostic => fault (machine.atConsole printed input) diagnostic

def machine : Step → Machine
  | next machine => machine
  | halt machine => machine
  | fault machine _ => machine

end Step

namespace Machine

variable {machine : Machine} (printed : String) (input : List Char) (tokens : List Token)

@[simp] theorem atConsole_self (machine : Machine) :
    machine.atConsole "" machine.input = machine := by
  simp [atConsole]

@[simp] theorem program_atConsole : (machine.atConsole printed input).program = machine.program :=
  rfl

@[simp] theorem rest_atConsole : (machine.atConsole printed input).rest = machine.rest :=
  rfl

@[simp] theorem blocks_atConsole : (machine.atConsole printed input).blocks = machine.blocks :=
  rfl

@[simp] theorem meaning_atConsole : (machine.atConsole printed input).meaning = machine.meaning :=
  rfl

@[simp] theorem place_atConsole : (machine.atConsole printed input).place = machine.place :=
  rfl

@[simp] theorem header_atConsole (block : Block) :
    (machine.atConsole printed input).header block tokens = machine.header block tokens :=
  rfl

@[simp] theorem finishLine_atConsole :
    (machine.atConsole printed input).finishLine tokens =
      (machine.finishLine tokens).atConsole printed input := by
  simp only [finishLine, program_atConsole]
  cases machine.program.ending.expectLineEnd tokens <;> rfl

private theorem print_atConsole (text : String) :
    (machine.atConsole printed input).print text =
      (machine.print text).atConsole printed input := by
  simp [print, atConsole, String.append_assoc]

private theorem printLine_atConsole :
    (machine.atConsole printed input).printLine tokens =
      (machine.printLine tokens).atConsole printed input := by
  unfold printLine
  simp only [program_atConsole, meaning_atConsole, print_atConsole, finishLine_atConsole]
  split
  · rfl
  · cases Formula.expression machine.meaning machine.program.ending tokens <;> rfl

private theorem skipBlock_atConsole (block : Block) :
    (machine.atConsole printed input).skipBlock block =
      (machine.skipBlock block).atConsole printed input := by
  simp only [skipBlock, program_atConsole, place_atConsole, finishLine_atConsole]
  cases machine.program.ending.expect (.keyword block.closer) _ <;> rfl

@[simp] theorem openLine_atConsole (block : Block) :
    (machine.atConsole printed input).openLine block tokens =
      (machine.openLine block tokens).atConsole printed input := by
  simp only [openLine, header_atConsole, skipBlock_atConsole]
  cases machine.header block tokens with
  | error diagnostic => rfl
  | ok found =>
    dsimp only
    split <;> rfl

private theorem labelLine_atConsole :
    (machine.atConsole printed input).labelLine tokens =
      (machine.labelLine tokens).atConsole printed input := by
  simp only [labelLine, program_atConsole, finishLine_atConsole]
  cases machine.program.ending.expectName tokens <;> rfl

private theorem noteTarget_atConsole (name : String) :
    (machine.atConsole printed input).noteTarget name =
      (machine.noteTarget name).atConsole printed input := by
  by_cases noted : name ∈ machine.targets <;> simp [noteTarget, atConsole, noted]

private theorem gotoLine_atConsole :
    (machine.atConsole printed input).gotoLine tokens =
      (machine.gotoLine tokens).atConsole printed input := by
  simp only [gotoLine, program_atConsole, noteTarget_atConsole]
  cases machine.program.ending.expectName tokens with
  | error diagnostic => rfl
  | ok named =>
    obtain ⟨name, line, rest⟩ := named
    dsimp only
    cases machine.program.ending.expect .newline rest with
    | error diagnostic => rfl
    | ok behind =>
      dsimp only
      cases (machine.noteTarget name).program.destinations.label? name <;> rfl

private theorem letLine_atConsole :
    (machine.atConsole printed input).letLine tokens =
      (machine.letLine tokens).atConsole printed input := by
  simp only [letLine, program_atConsole]
  cases machine.program.ending.expectName tokens with
  | error diagnostic => rfl
  | ok named =>
    obtain ⟨name, line, rest⟩ := named
    dsimp only
    cases machine.program.ending.expect .assign rest with
    | error diagnostic => rfl
    | ok behind =>
      dsimp only
      -- the variable is declared before its value is read
      have declares : ({ machine.atConsole printed input with
            program := machine.program
            symbols := (machine.atConsole printed input).symbols.declare name } : Machine) =
          ({ machine with symbols := machine.symbols.declare name } : Machine).atConsole
            printed input := rfl
      rw [declares]
      generalize ({ machine with symbols := machine.symbols.declare name } : Machine) = declared
      have assigns (value : Float) : (declared.atConsole printed input).assign name value =
          (declared.assign name value).atConsole printed input := rfl
      simp only [meaning_atConsole, assigns, finishLine_atConsole]
      cases Formula.expression declared.meaning machine.program.ending behind <;> rfl

/-- The line at the cursor reads from the console.  A line without a name is refused before anything
is read. -/
def reads (machine : Machine) : Bool :=
  match machine.rest with
  | ⟨.keyword .inputWord, _, _⟩ :: ⟨.identifier _, _, _⟩ :: _ => true
  | _ => false

theorem reads_eq_false {token : Token} {rest : List Token} (front : machine.rest = token :: rest)
    (other : token.lexeme ≠ .keyword .inputWord) : machine.reads = false := by
  unfold reads
  rw [front]
  split
  · next shape =>
    obtain ⟨rfl, -⟩ := List.cons.inj shape
    exact absurd rfl other
  · rfl

private theorem line_atConsole {token : Token} (other : token.lexeme ≠ .keyword .inputWord) :
    (machine.atConsole printed input).line token tokens =
      (machine.line token tokens).atConsole printed input := by
  unfold line
  split
  · exact printLine_atConsole _ _ _
  · exact openLine_atConsole _ _ _ _
  · exact openLine_atConsole _ _ _ _
  · exact labelLine_atConsole _ _ _
  · exact gotoLine_atConsole _ _ _
  · exact letLine_atConsole _ _ _
  · next word => exact absurd word other
  · rfl

/-- A line that reads does the same at both consoles if the same line is to be read there. -/
theorem inputLine_atConsole {token : Token} (front : machine.rest = token :: tokens)
    (word : token.lexeme = .keyword .inputWord)
    (same : machine.reads = true → Text.firstLine machine.input = Text.firstLine input) :
    (machine.atConsole printed input).inputLine tokens =
      (machine.inputLine tokens).atConsole printed
        (Text.afterLines machine.reads.toNat input) := by
  obtain ⟨lexeme, text, line⟩ := token
  obtain rfl : lexeme = _ := word
  simp only [inputLine, program_atConsole]
  cases tokens with
  | nil =>
    have none : machine.reads = false := by simp [reads, front]
    rw [none]
    rfl
  | cons named rest =>
    obtain ⟨lexeme, text', line'⟩ := named
    cases lexeme with
    | identifier name =>
      have reading : machine.reads = true := by simp [reads, front]
      have read : (machine.atConsole printed input).inputTo name =
          (machine.inputTo name).atConsole printed (Text.afterFirstLine input) := by
        simp [inputTo, assign, atConsole, same reading]
      rw [reading]
      simp only [Ending.expectName, read, finishLine_atConsole]
      rfl
    | _ =>
      have none : machine.reads = false := by simp [reads, front]
      rw [none]
      rfl

private theorem closeLine_atConsole (block : Block) (opener : Nat) (outer : List (Block × Nat)) :
    (machine.atConsole printed input).closeLine block opener outer tokens =
      (machine.closeLine block opener outer tokens).atConsole printed input := by
  cases block with
  | loop => rfl
  | conditional => exact @finishLine_atConsole { machine with blocks := outer } _ _ _

/-- A step does the same at both consoles, and takes a line from each of them if it reads. -/
theorem step_atConsole
    (same : machine.reads = true → Text.firstLine machine.input = Text.firstLine input) :
    (machine.atConsole printed input).step =
      machine.step.atConsole printed (Text.afterLines machine.reads.toNat input) := by
  cases front : machine.rest with
  | nil =>
    have none : machine.reads = false := by simp [reads, front]
    rw [none]
    cases within : machine.blocks <;>
      simp only [step, rest_atConsole, blocks_atConsole, front, within] <;> rfl
  | cons token rest =>
    have lines : (machine.atConsole printed input).line token rest =
        (machine.line token rest).atConsole printed
          (Text.afterLines machine.reads.toNat input) := by
      by_cases word : token.lexeme = .keyword .inputWord
      · simp only [line, word]
        exact inputLine_atConsole printed input rest front word same
      · rw [reads_eq_false front word]
        exact line_atConsole printed input rest word
    have silent : token.kind ≠ .keyword .inputWord → machine.reads = false := by
      intro other
      apply reads_eq_false front
      intro word
      exact other (by rw [Token.kind, word]; rfl)
    cases within : machine.blocks with
    | nil =>
      simp only [step, rest_atConsole, blocks_atConsole, front, within]
      split
      · next ended =>
        rw [silent (by rw [ended]; decide)]
        rfl
      · exact lines
    | cons frame outer =>
      obtain ⟨block, opener⟩ := frame
      simp only [step, rest_atConsole, blocks_atConsole, front, within]
      split
      · next closes =>
        rw [silent (by rw [closes]; cases block <;> decide)]
        exact closeLine_atConsole printed input rest block opener outer
      · exact lines

/-- What a step leaves to be read. -/
theorem input_step (machine : Machine) :
    machine.step.machine.input = Text.afterLines machine.reads.toNat machine.input := by
  have same := step_atConsole "" machine.input fun (_ : machine.reads = true) => rfl
  rw [atConsole_self] at same
  rw [same]
  cases machine.step <;> rfl

/-- How many lines a run reads from the console within its budget. -/
def inputCount : Nat → Machine → Nat
  | 0, _ => 0
  | budget + 1, machine =>
      machine.reads.toNat +
        match machine.step with
        | .next next => inputCount budget next
        | _ => 0

/-- A run does the same at both consoles if the lines that it reads are the same. -/
theorem run?_atConsole {machine : Machine} (printed : String) {input : List Char} (budget : Nat)
    (same : Text.SameLines (machine.inputCount budget) machine.input input) :
    (machine.atConsole printed input).run? budget =
      (machine.run? budget).map
        (Stopped.atConsole printed (Text.afterLines (machine.inputCount budget) input)) := by
  induction budget generalizing machine input with
  | zero => rfl
  | succ budget induction =>
    rw [inputCount] at same ⊢
    have read : machine.reads = true → Text.firstLine machine.input = Text.firstLine input := by
      intro reading
      rw [reading, Bool.toNat_true, Nat.add_comm] at same
      exact same.1
    have left := input_step machine
    have behind := same.behind
    rw [run?, run?, step_atConsole printed input read, Text.afterLines_add]
    cases taken : machine.step with
    | next next =>
      simp only [taken] at left behind
      rw [← left] at behind
      exact induction behind
    | halt last => rfl
    | fault last diagnostic => rfl

/-- What a run leaves to be read: all but the lines that it has read. -/
theorem input_of_run? {machine : Machine} {budget : Nat} {stopped : Stopped}
    (ended : machine.run? budget = some stopped) :
    stopped.machine.input = Text.afterLines (machine.inputCount budget) machine.input := by
  have same := run?_atConsole "" budget (.refl (machine.inputCount budget) machine.input)
  rw [atConsole_self, ended, Option.map_some, Option.some.injEq] at same
  exact congrArg (fun stopped => stopped.machine.input) same

@[simp] theorem program_finishLine (machine : Machine) (tokens : List Token) :
    (machine.finishLine tokens).machine.program = machine.program := by
  unfold finishLine
  split <;> rfl

private theorem program_printLine (machine : Machine) (tokens : List Token) :
    (machine.printLine tokens).machine.program = machine.program := by
  unfold printLine
  split
  · exact program_finishLine _ _
  · split
    · exact program_finishLine _ _
    · rfl

@[simp] theorem program_openLine (machine : Machine) (block : Block) (tokens : List Token) :
    (machine.openLine block tokens).machine.program = machine.program := by
  unfold openLine
  split
  · rfl
  · split
    · rfl
    · unfold skipBlock
      dsimp only
      split
      · exact program_finishLine _ _
      · rfl

private theorem program_labelLine (machine : Machine) (tokens : List Token) :
    (machine.labelLine tokens).machine.program = machine.program := by
  unfold labelLine
  split
  · exact program_finishLine _ _
  · rfl

private theorem program_gotoLine (machine : Machine) (tokens : List Token) :
    (machine.gotoLine tokens).machine.program = machine.program := by
  have noted (name : String) : (machine.noteTarget name).program = machine.program := by
    unfold noteTarget
    split <;> rfl
  unfold gotoLine
  split
  · rfl
  · split
    · rfl
    · dsimp only
      split <;> exact noted _

private theorem program_letLine (machine : Machine) (tokens : List Token) :
    (machine.letLine tokens).machine.program = machine.program := by
  unfold letLine
  split
  · rfl
  · dsimp only
    split
    · rfl
    · split
      · rfl
      · exact program_finishLine _ _

private theorem program_inputLine (machine : Machine) (tokens : List Token) :
    (machine.inputLine tokens).machine.program = machine.program := by
  unfold inputLine
  split
  · rfl
  · exact program_finishLine _ _

@[simp] theorem program_line (machine : Machine) (token : Token) (rest : List Token) :
    (machine.line token rest).machine.program = machine.program := by
  unfold line
  split
  · exact program_printLine _ _
  · exact program_openLine _ _ _
  · exact program_openLine _ _ _
  · exact program_labelLine _ _
  · exact program_gotoLine _ _
  · exact program_letLine _ _
  · exact program_inputLine _ _
  · rfl

private theorem program_step (machine : Machine) :
    machine.step.machine.program = machine.program := by
  unfold step
  split
  · rfl
  · rfl
  · split
    · rfl
    · exact program_line _ _ _
  · split
    · unfold closeLine
      split
      · rfl
      · exact program_finishLine _ _
    · exact program_line _ _ _

private theorem program_of_run? {machine : Machine} {budget : Nat} {stopped : Stopped}
    (ended : machine.run? budget = some stopped) :
    stopped.machine.program = machine.program := by
  induction budget generalizing machine with
  | zero => cases ended
  | succ budget induction =>
    have kept := program_step machine
    rw [run?] at ended
    cases taken : machine.step with
    | next next =>
      rw [taken] at kept ended
      exact (induction ended).trans kept
    | halt last =>
      rw [taken] at kept ended
      cases ended
      exact kept
    | fault last diagnostic =>
      rw [taken] at kept ended
      cases ended
      exact kept

/-- The machine was run from its first line a number of times, each time until it stopped, with a
fault or without. -/
inductive HasRun (program : Program) (input : List Char) : Nat → Machine → Prop
  | never : HasRun program input 0 (start program input)
  | again {count budget machine stopped} :
      HasRun program input count machine →
      machine.restart.run? budget = some stopped →
      HasRun program input (count + 1) stopped.machine

private theorem HasRun.program_eq {program : Program} {input : List Char} {count : Nat}
    {machine : Machine} (history : HasRun program input count machine) :
    machine.program = program := by
  induction history with
  | never => rfl
  | again _ ended induction => exact (program_of_run? ended).trans induction

private theorem restart_eq_atConsole (machine : Machine) :
    machine.restart =
      (start machine.program machine.input).atConsole machine.output machine.input := by
  simp [restart, start, atConsole]

namespace Sample

/-- The last line declares its variable and then fails, since the other one has no value. -/
def halfDoneBody : List Token := [
  ⟨.keyword .printWord, "PRINT", 1⟩, ⟨.string "?", "?", 1⟩, ⟨.newline, "\n", 1⟩,
  ⟨.keyword .inputWord, "INPUT", 2⟩, ⟨.identifier "a", "a", 2⟩, ⟨.newline, "\n", 2⟩,
  ⟨.keyword .letWord, "LET", 3⟩, ⟨.identifier "b", "b", 3⟩, ⟨.assign, "=", 3⟩,
  ⟨.identifier "c", "c", 3⟩, ⟨.newline, "\n", 3⟩]

def halfDone : Program :=
  ⟨halfDoneBody, 4, ⟨[], [], 11⟩⟩

private theorem load_halfDone : Program.load (halfDoneBody ++ [Token.eofAt 4]) = .ok halfDone := rfl

end Sample

/-- A machine that has run any number of times runs like a fresh one on what is left to be read,
with the earlier output in front.  A run reads as many lines as it executes lines that read, and
what stands behind these plays no role in it. -/
theorem run?_restart_of_hasRun (program : Program) (budget : Nat) :
    (∀ input count machine, HasRun program input count machine →
      machine.restart.run? budget =
        ((start program machine.input).run? budget).map fun stopped =>
          ⟨{ stopped.machine with output := machine.output ++ stopped.machine.output },
            stopped.fault⟩) ∧
    (∀ input stopped, (start program input).run? budget = some stopped →
      stopped.machine.input =
        Text.afterLines ((start program input).inputCount budget) input) ∧
    ∀ (lines : List (List Char)) (rest rest' : List Char), (∀ line ∈ lines, '\n' ∉ line) →
      (start program (Text.ofLines lines ++ rest)).inputCount budget ≤ lines.length →
      (start program (Text.ofLines lines ++ rest')).run? budget =
        ((start program (Text.ofLines lines ++ rest)).run? budget).map fun stopped =>
          ⟨{ stopped.machine with
              input := Text.ofLines (lines.drop
                ((start program (Text.ofLines lines ++ rest)).inputCount budget)) ++ rest' },
            stopped.fault⟩ := by
  refine ⟨?_, ?_, ?_⟩
  · intro input count machine history
    have alike := run?_atConsole machine.output budget
      (.refl ((start program machine.input).inputCount budget) machine.input)
    rw [restart_eq_atConsole, history.program_eq, alike]
    apply Option.map_congr
    intro stopped ended
    have left : stopped.machine.input =
        Text.afterLines ((start program machine.input).inputCount budget) machine.input :=
      input_of_run? ended
    rw [← left]
    rfl
  · intro input stopped ended
    exact input_of_run? ended
  · intro lines rest rest' single few
    have same := (Text.sameLines_ofLines single rest rest').mono few
    have alike := run?_atConsole "" budget same
    have moved : (start program (Text.ofLines lines ++ rest)).atConsole ""
        (Text.ofLines lines ++ rest') = start program (Text.ofLines lines ++ rest') := by
      simp [atConsole, start]
    rw [moved] at alike
    rw [alike, Text.afterLines_ofLines single few]
    apply Option.map_congr
    intro stopped _
    simp [Stopped.atConsole, atConsole]

/-- The first run stops with a fault and leaves two variables behind.  The second one knows nothing
of them and reads the second line; the first one would not have missed that line. -/
theorem run?_restart_of_hasRun_halfDone :
    Program.load (Sample.halfDoneBody ++ [Token.eofAt 4]) = .ok Sample.halfDone ∧
    ∃ stopped, (start Sample.halfDone "1\n2\n".toList).restart.run? 3 = some stopped ∧
      stopped.fault = some (.unassignedVariable "c" 3) ∧
      stopped.machine.symbols.entries.map (·.1) = ["a", "b"] ∧
      HasRun Sample.halfDone "1\n2\n".toList 1 stopped.machine ∧
      stopped.machine.restart.run? 3 =
        ((start Sample.halfDone "2\n".toList).run? 3).map (fun again =>
          ⟨{ again.machine with output := "?\n" ++ again.machine.output }, again.fault⟩) ∧
      (start Sample.halfDone "1\n2\n".toList).inputCount 3 = 1 ∧
      (start Sample.halfDone "1\n".toList).run? 3 =
        ((start Sample.halfDone "1\n2\n".toList).run? 3).map fun stopped =>
          ⟨{ stopped.machine with input := [] }, stopped.fault⟩ := by
  have all := run?_restart_of_hasRun Sample.halfDone 3
  have first : ∃ stopped,
      (start Sample.halfDone "1\n2\n".toList).restart.run? 3 = some stopped ∧
      stopped.fault = some (.unassignedVariable "c" 3) ∧
      stopped.machine.symbols.entries.map (·.1) = ["a", "b"] ∧
      stopped.machine.input = "2\n".toList ∧ stopped.machine.output = "?\n" :=
    ⟨_, rfl, rfl, rfl, rfl, rfl⟩
  obtain ⟨stopped, ended, fault, left, input, output⟩ := first
  have history : HasRun Sample.halfDone "1\n2\n".toList 1 stopped.machine := .again .never ended
  refine ⟨Sample.load_halfDone, stopped, ended, fault, left, history, ?_, rfl, ?_⟩
  · rw [← input, ← output]
    exact all.1 _ _ _ history
  · exact all.2.2 [['1']] ['2', '\n'] [] (by decide) (Nat.le_refl 1)

end Machine

end TeenyBasic
