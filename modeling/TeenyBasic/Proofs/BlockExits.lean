import TeenyBasic.Proofs.MachineLines
import TeenyBasic.Proofs.OpenBlocks

/-!
# The two ways out of a block

A block is left behind its closing word, which a machine finds in two ways.  If the condition is
met, it executes the body and stops at the first closing word that it meets there, having perhaps
skipped or repeated blocks on the way.  If not, it asks the table of jumps.  The table was made by a
pass that knows nothing of runs, and the program need not be one of the grammar.  Still both ways
lead to the same word: while a machine executes a body, the blocks that it has entered there are
those that the pass has open at its cursor (`Inside.step`).
-/

namespace TeenyBasic

def Program.Tabled (program : Program) : Prop :=
  Destinations.collect ⟨[], [], program.body.length⟩ [] 0 program.body = .ok program.destinations

theorem Program.tabled_of_load {tokens : List Token} {program : Program}
    (loaded : load tokens = .ok program) : program.Tabled := by
  unfold load at loaded
  split at loaded
  · next last found =>
    split at loaded
    · next atEnd =>
      split at loaded
      · next made assembled =>
        simp only [Except.ok.injEq] at loaded
        subst loaded
        unfold assemble at assembled
        split at assembled
        · next destinations collected =>
          simp only [Except.ok.injEq] at assembled
          subst assembled
          rw [Destinations.ofTokens, Destinations.collect_append_of_kind_eof _ atEnd] at collected
          simpa [Tabled] using collected
        · simp at assembled
      · simp at loaded
    · simp at loaded
  · simp at loaded

theorem Program.lastPlace_eq {program : Program} (tabled : program.Tabled) :
    program.destinations.lastPlace = program.body.length :=
  (Destinations.closings_collect tabled).2

/-- A block that nothing closes is taken to end with the program. -/
theorem Program.closingFrom_of_closer?_eq_none {program : Program} (tabled : program.Tabled)
    {place : Nat} (unclosed : program.destinations.closer? place = none) :
    program.destinations.closingFrom place = program.body.length := by
  rw [← lastPlace_eq tabled]
  change ((program.destinations.closer? place).map Int.ofNat).getD _ = _
  rw [unclosed]
  rfl

theorem Block.opener_ne_closer (block other : Block) : block.opener ≠ other.closer := by
  cases block <;> cases other <;> decide

namespace Machine

variable {machine next : Machine} {tokens : List Token}

/-- A line has led to the next one without opening or closing a block. -/
structure Plain (machine : Machine) (tokens : List Token) (next : Machine) : Prop where
  quiet : Quiet tokens next.rest
  program : next.program = machine.program
  blocks : next.blocks = machine.blocks

theorem Plain.behind_word {word : Keyword} {text : String} {line : Int}
    (plain : Plain machine tokens next) (opensNone : Block.ofOpener? word = none)
    (closesNone : Block.ofCloser? word = none) :
    Plain machine (⟨.keyword word, text, line⟩ :: tokens) next := by
  refine ⟨plain.quiet.cons ?_, plain.program, plain.blocks⟩
  intro block
  constructor
  · intro same
    obtain rfl : word = block.opener := by simpa [Token.kind, Lexeme.kind] using same
    simp [Block.ofOpener?_opener] at opensNone
  · intro same
    obtain rfl : word = block.closer := by simpa [Token.kind, Lexeme.kind] using same
    simp [Block.ofCloser?_closer] at closesNone

theorem Plain.passes {before : List Token} (plain : Plain machine tokens next)
    (passes : Grammar.Passes before tokens) : Plain machine before next :=
  ⟨(Quiet.of_passes passes).trans plain.quiet, plain.program, plain.blocks⟩

theorem plain_of_finishLine (taken : machine.finishLine tokens = .next next) :
    Plain machine tokens next := by
  unfold finishLine at taken
  split at taken
  · next rest ended =>
    simp only [Step.next.injEq] at taken
    subst taken
    exact ⟨.of_passes (Grammar.newline_of_expectLineEnd ended).passes, rfl, rfl⟩
  · simp at taken

theorem plain_of_printLine (taken : machine.printLine tokens = .next next) :
    Plain machine tokens next := by
  unfold printLine at taken
  split at taken
  · next content text line rest =>
    obtain ⟨quiet, program, blocks⟩ := plain_of_finishLine taken
    have plain : Plain machine rest next := ⟨quiet, program, blocks⟩
    exact plain.passes ((Grammar.Passes.refl _).cons (by simp))
  · split at taken
    · next formula rest read =>
      obtain ⟨quiet, program, blocks⟩ := plain_of_finishLine taken
      obtain ⟨tree, derived⟩ := Formula.exists_sum_of_expression read
      have plain : Plain machine rest next := ⟨quiet, program, blocks⟩
      exact plain.passes derived.passes
    · simp at taken

theorem plain_of_labelLine (taken : machine.labelLine tokens = .next next) :
    Plain machine tokens next := by
  unfold labelLine at taken
  split at taken
  · next name line rest named =>
    obtain ⟨text, rfl⟩ := Ending.exists_identifier_of_expectName named
    exact (plain_of_finishLine taken).passes ((Grammar.Passes.refl _).cons (by simp))
  · simp at taken

theorem plain_of_letLine (taken : machine.letLine tokens = .next next) :
    Plain machine tokens next := by
  unfold letLine at taken
  split at taken
  · simp at taken
  · next name line rest named =>
    obtain ⟨text, rfl⟩ := Ending.exists_identifier_of_expectName named
    simp only at taken
    split at taken
    · simp at taken
    · next rest' assigned =>
      obtain ⟨text', line', rfl⟩ := Ending.exists_assign_of_expect assigned
      split at taken
      · simp at taken
      · next formula last read =>
        obtain ⟨quiet, program, blocks⟩ := plain_of_finishLine taken
        obtain ⟨tree, derived⟩ := Formula.exists_sum_of_expression read
        have plain : Plain machine last next := ⟨quiet, program, blocks⟩
        exact plain.passes ((derived.passes.cons (by simp)).cons (by simp))

theorem plain_of_inputLine (taken : machine.inputLine tokens = .next next) :
    Plain machine tokens next := by
  unfold inputLine at taken
  split at taken
  · simp at taken
  · next name line rest named =>
    obtain ⟨text, rfl⟩ := Ending.exists_identifier_of_expectName named
    obtain ⟨quiet, program, blocks⟩ := plain_of_finishLine taken
    have plain : Plain machine rest next := ⟨quiet, program, blocks⟩
    exact plain.passes ((Grammar.Passes.refl _).cons (by simp))

/-- A jump has led to some place, out of all blocks. -/
structure Jumps (machine next : Machine) : Prop where
  rest : ∃ place, next.rest = machine.program.tokensFrom place
  program : next.program = machine.program
  blocks : next.blocks = []

private theorem jumps_of_gotoLine (taken : machine.gotoLine tokens = .next next) :
    machine.Jumps next := by
  unfold gotoLine at taken
  split at taken
  · simp at taken
  · next name line rest named =>
    have program := @program_noteTarget machine name
    split at taken
    · simp at taken
    · simp only at taken
      split at taken
      · simp at taken
      · next place found =>
        simp only [Step.next.injEq] at taken
        subst taken
        exact ⟨⟨place, by rw [program]⟩, program, rfl⟩

theorem quiet_of_header {block : Block} {condition : Formula Float} {rest : List Token}
    (read : machine.header block tokens = .ok (condition, rest)) : Quiet tokens rest := by
  unfold header at read
  split at read
  · simp at read
  · next found =>
    split at read
    · simp at read
    · next separated =>
      split at read
      · simp at read
      · next ended =>
        simp only [Except.ok.injEq, Prod.mk.injEq] at read
        obtain ⟨-, rfl⟩ := read
        obtain ⟨text, line, rfl⟩ := Ending.exists_keyword_of_expect separated
        obtain ⟨tree, derived⟩ := Formula.exists_comparison_of_condition found
        have ends := (Grammar.newline_of_expectLineEnd ended).passes
        exact (Quiet.of_passes derived.passes).trans
          ((Quiet.separator block text line).trans (.of_passes ends))

/-- A machine has gone on behind the closing word that the table gives for the block at its
cursor. -/
def Skips (machine : Machine) (block : Block) (next : Machine) : Prop :=
  ∃ token last, machine.program.tokensFrom
      (machine.program.destinations.closingFrom machine.place).toNat = token :: last ∧
    token.kind = .keyword block.closer ∧ Plain machine last next

private theorem skips_of_skipBlock {block : Block} (taken : machine.skipBlock block = .next next) :
    machine.Skips block next := by
  unfold skipBlock at taken
  simp only at taken
  split at taken
  · next rest found =>
    obtain ⟨token, shape, closes⟩ := Ending.exists_cons_of_expect found
    exact ⟨token, rest, shape, closes, plain_of_finishLine taken⟩
  · simp at taken

/-- A machine has entered the block at its cursor. -/
structure Enters (machine : Machine) (block : Block) (tokens : List Token) (next : Machine) :
    Prop where
  quiet : Quiet tokens next.rest
  program : next.program = machine.program
  blocks : next.blocks = (block, machine.place) :: machine.blocks

theorem enters_or_skips {block : Block} (taken : machine.openLine block tokens = .next next) :
    machine.Enters block tokens next ∨ machine.Skips block next := by
  unfold openLine at taken
  split at taken
  · simp at taken
  · next condition rest read =>
    split at taken
    · simp only [Step.next.injEq] at taken
      subst taken
      exact .inl ⟨quiet_of_header read, rfl, rfl⟩
    · exact .inr (skips_of_skipBlock taken)

/-- What a line does to the blocks: nothing, or it enters the block that it opens, or skips it, or
it leaves all of them. -/
theorem line_cases {token : Token} (taken : machine.line token tokens = .next next) :
    Plain machine (token :: tokens) next ∨ machine.Jumps next ∨
      ∃ block : Block, token.kind = .keyword block.opener ∧
        (machine.Enters block tokens next ∨ machine.Skips block next) := by
  obtain ⟨lexeme, text, line⟩ := token
  unfold Machine.line at taken
  split at taken
  · next word =>
    obtain rfl : lexeme = _ := word
    exact .inl ((plain_of_printLine taken).behind_word rfl rfl)
  · next word =>
    obtain rfl : lexeme = _ := word
    exact .inr (.inr ⟨.conditional, rfl, enters_or_skips taken⟩)
  · next word =>
    obtain rfl : lexeme = _ := word
    exact .inr (.inr ⟨.loop, rfl, enters_or_skips taken⟩)
  · next word =>
    obtain rfl : lexeme = _ := word
    exact .inl ((plain_of_labelLine taken).behind_word rfl rfl)
  · exact .inr (.inl (jumps_of_gotoLine taken))
  · next word =>
    obtain rfl : lexeme = _ := word
    exact .inl ((plain_of_letLine taken).behind_word rfl rfl)
  · next word =>
    obtain rfl : lexeme = _ := word
    exact .inl ((plain_of_inputLine taken).behind_word rfl rfl)
  · simp at taken

/-- The machine is in the body of a block that it has entered: the blocks entered since then are
also those that the pass through all tokens has open since the same place. -/
def Inside (frame : Block × Nat) (outer around : List (Block × Nat)) (machine : Machine) : Prop :=
  ∃ inner, machine.blocks = inner ++ frame :: outer ∧
    OpenAt machine.program.body machine.rest (inner ++ frame :: around)

variable {frame : Block × Nat} {outer around : List (Block × Nat)}

/-- Behind a block that was skipped the same blocks are open as in front of it. -/
theorem openAt_of_skips {block : Block} {blocks : List (Block × Nat)}
    (tabled : machine.program.Tabled) (opened : OpenAt machine.program.body machine.rest blocks)
    (skips : machine.Skips block next) : OpenAt machine.program.body next.rest blocks := by
  obtain ⟨token, last, found, closes, plain⟩ := skips
  cases closer : machine.program.destinations.closer? machine.place with
  | none =>
      -- no word stands where the program ends
      rw [Program.closingFrom_of_closer?_eq_none tabled closer, Int.toNat_natCast,
        Program.tokensFrom, List.drop_length] at found
      simp at found
  | some closing =>
      rw [Destinations.closingFrom_of_closer? closer, Int.toNat_natCast] at found
      exact (opened.behind_closer rfl tabled closer found).quiet plain.quiet

theorem openAt_of_enters {block : Block} {token : Token} {blocks : List (Block × Nat)}
    (front : machine.rest = token :: tokens) (opens : token.kind = .keyword block.opener)
    (opened : OpenAt machine.program.body machine.rest blocks)
    (enters : machine.Enters block tokens next) :
    OpenAt machine.program.body next.rest ((block, machine.place) :: blocks) := by
  rw [front] at opened
  have behind := (opened.opener opens).quiet enters.quiet
  rw [← front] at behind
  exact behind

theorem Inside.line {token : Token} (tabled : machine.program.Tabled)
    (inside : Inside frame outer around machine) (front : machine.rest = token :: tokens)
    (taken : machine.line token tokens = .next next) (stays : frame :: outer <:+ next.blocks) :
    next.program = machine.program ∧ Inside frame outer around next := by
  obtain ⟨inner, entered, opened⟩ := inside
  rcases line_cases taken with plain | jumps | ⟨block, opens, enters | skips⟩
  · have behind := opened
    rw [front] at behind
    refine ⟨plain.program, inner, by rw [plain.blocks, entered], ?_⟩
    rw [plain.program]
    exact behind.quiet plain.quiet
  · simp [jumps.blocks] at stays
  · refine ⟨enters.program, (block, machine.place) :: inner, ?_, ?_⟩
    · rw [enters.blocks, entered, List.cons_append]
    · rw [enters.program]
      exact openAt_of_enters front opens opened enters
  · have behind := openAt_of_skips tabled opened skips
    obtain ⟨_, _, _, _, plain⟩ := skips
    refine ⟨plain.program, inner, by rw [plain.blocks, entered], ?_⟩
    rw [plain.program]
    exact behind

theorem blocks_of_closeLine {block : Block} {opener : Nat} {enclosing : List (Block × Nat)}
    (taken : machine.closeLine block opener enclosing tokens = .next next) :
    next.program = machine.program ∧ next.blocks = enclosing := by
  cases block with
  | conditional =>
      obtain ⟨-, program, blocks⟩ := plain_of_finishLine taken
      exact ⟨program, blocks⟩
  | loop =>
      simp only [closeLine, Step.next.injEq] at taken
      subst taken
      exact ⟨rfl, rfl⟩

private theorem openAt_of_closeLine {block : Block} {opener : Nat} {token : Token}
    {enclosing blocks : List (Block × Nat)} (front : machine.rest = token :: tokens)
    (closes : token.kind = .keyword block.closer)
    (opened : OpenAt machine.program.body machine.rest ((block, opener) :: blocks))
    (taken : machine.closeLine block opener enclosing tokens = .next next) :
    OpenAt machine.program.body next.rest blocks := by
  cases block with
  | conditional =>
      have plain := plain_of_finishLine taken
      rw [front] at opened
      exact (opened.closer closes).quiet plain.quiet
  | loop =>
      simp only [closeLine, Step.next.injEq] at taken
      subst taken
      exact opened.reopen []

theorem Inside.close {block : Block} {opener : Nat} {token : Token} {enclosing : List (Block × Nat)}
    (inside : Inside frame outer around machine) (front : machine.rest = token :: tokens)
    (stack : machine.blocks = (block, opener) :: enclosing)
    (closes : token.kind = .keyword block.closer)
    (taken : machine.closeLine block opener enclosing tokens = .next next)
    (stays : frame :: outer <:+ next.blocks) :
    next.program = machine.program ∧ Inside frame outer around next := by
  obtain ⟨inner, entered, opened⟩ := inside
  obtain ⟨program, blocks⟩ := blocks_of_closeLine taken
  rw [entered] at stack
  cases inner with
  | nil =>
      -- the block itself would be left
      simp only [List.nil_append, List.cons.injEq] at stack
      rw [blocks, ← stack.2] at stays
      have longer := stays.length_le
      rw [List.length_cons] at longer
      omega
  | cons first inner =>
      simp only [List.cons_append, List.cons.injEq] at stack
      obtain ⟨rfl, rfl⟩ := stack
      refine ⟨program, inner, blocks, ?_⟩
      rw [program]
      exact openAt_of_closeLine front closes opened taken

/-- While a machine stays in a block, the blocks that it enters are open for the pass too. -/
theorem Inside.step (tabled : machine.program.Tabled)
    (inside : Inside frame outer around machine) (taken : machine.step = .next next)
    (stays : frame :: outer <:+ next.blocks) :
    next.program = machine.program ∧ Inside frame outer around next := by
  unfold Machine.step at taken
  split at taken
  · simp at taken
  · simp at taken
  · next token rest front none =>
    obtain ⟨inner, entered, -⟩ := inside
    simp [none] at entered
  · next token rest block opener enclosing front stack =>
    split at taken
    · next closes => exact inside.close front stack closes taken stays
    · exact inside.line tabled front taken stays

/-- Steps of a machine during which the blocks of `frame` stay entered. -/
inductive StaysIn (frame : List (Block × Nat)) : Machine → Machine → Prop
  | here {machine : Machine} : frame <:+ machine.blocks → StaysIn frame machine machine
  | step {machine next last : Machine} :
      frame <:+ machine.blocks →
      machine.step = .next next →
      StaysIn frame next last →
      StaysIn frame machine last

theorem StaysIn.suffix {frame : List (Block × Nat)} {last : Machine}
    (stays : StaysIn frame machine last) : frame <:+ machine.blocks := by
  cases stays with
  | here within => exact within
  | step within _ _ => exact within

theorem Inside.run {last : Machine} (tabled : machine.program.Tabled)
    (inside : Inside frame outer around machine) (stays : StaysIn (frame :: outer) machine last) :
    last.program = machine.program ∧ Inside frame outer around last := by
  induction stays with
  | here _ => exact ⟨rfl, inside⟩
  | step _ taken further induction =>
      obtain ⟨program, inside'⟩ := inside.step tabled taken further.suffix
      rw [← program] at tabled
      obtain ⟨program', reached⟩ := induction tabled inside'
      exact ⟨program'.trans program, reached⟩

/-- A step into a block is one that has found its condition met. -/
theorem enters_of_step {block : Block} {token : Token} (front : machine.rest = token :: tokens)
    (opens : token.kind = .keyword block.opener) (taken : machine.step = .next next)
    (stays : (block, machine.place) :: machine.blocks <:+ next.blocks) :
    machine.Enters block tokens next := by
  obtain ⟨lexeme, text, line⟩ := token
  obtain rfl : lexeme = _ := Lexeme.eq_keyword_of_kind opens
  rw [step_eq_line front block.opener_ne_closer, line_opener] at taken
  rcases enters_or_skips taken with enters | ⟨_, _, _, _, plain⟩
  · exact enters
  · have longer := stays.length_le
    rw [plain.blocks, List.length_cons] at longer
    omega

/-- A machine at the first word of a block has entered it and executed the body up to a closing
word, without leaving the block before. -/
structure RunsBody (machine : Machine) (block : Block) (stopped : Machine) : Prop where
  enters : ∃ entered, machine.step = .next entered ∧
    StaysIn ((block, machine.place) :: machine.blocks) entered stopped
  stack : stopped.blocks = (block, machine.place) :: machine.blocks
  closes : ∃ token last, stopped.rest = token :: last ∧ token.kind = .keyword block.closer

/-- Where the body of a block stops, the block is the innermost one for the pass too. -/
theorem RunsBody.openAt {block : Block} {stopped : Machine} {token : Token}
    (runs : machine.RunsBody block stopped) (tabled : machine.program.Tabled)
    (cursor : machine.rest <:+ machine.program.body) (front : machine.rest = token :: tokens)
    (opens : token.kind = .keyword block.opener) :
    stopped.program = machine.program ∧
      ∃ around, OpenAt machine.program.body stopped.rest ((block, machine.place) :: around) := by
  obtain ⟨entered, taken, stays⟩ := runs.enters
  obtain ⟨around, opened⟩ := OpenAt.exists_of_suffix cursor
  have enters := enters_of_step front opens taken stays.suffix
  have inside : Inside (block, machine.place) machine.blocks around entered := by
    refine ⟨[], enters.blocks, ?_⟩
    rw [enters.program]
    exact openAt_of_enters front opens opened enters
  rw [← enters.program] at tabled
  obtain ⟨program, inner, stack, reached⟩ := inside.run tabled stays
  have none : inner = [] := by
    rw [runs.stack] at stack
    have lengths := congrArg List.length stack
    simp only [List.length_append, List.length_cons] at lengths
    apply List.eq_nil_of_length_eq_zero
    omega
  subst none
  rw [program, enters.program] at reached
  exact ⟨program.trans enters.program, around, reached⟩

namespace Sample

/-- The word `ENDWHILE` closes nothing where it stands first, since a conditional block is open
there. -/
def entangledBody : List Token := [
  ⟨.keyword Block.loop.opener, "WHILE", 1⟩, ⟨.identifier "a", "a", 1⟩,
  ⟨.relation .equal, "==", 1⟩, ⟨.identifier "a", "a", 1⟩,
  ⟨.keyword Block.loop.separator, "REPEAT", 1⟩, ⟨.newline, "\n", 1⟩,
  ⟨.keyword Block.conditional.opener, "IF", 2⟩, ⟨.identifier "a", "a", 2⟩,
  ⟨.relation .unequal, "!=", 2⟩, ⟨.identifier "a", "a", 2⟩,
  ⟨.keyword Block.conditional.separator, "THEN", 2⟩, ⟨.newline, "\n", 2⟩,
  ⟨.keyword Block.loop.closer, "ENDWHILE", 3⟩, ⟨.newline, "\n", 3⟩,
  ⟨.keyword Block.conditional.closer, "ENDIF", 4⟩, ⟨.newline, "\n", 4⟩,
  ⟨.keyword Block.loop.closer, "ENDWHILE", 5⟩, ⟨.newline, "\n", 5⟩]

def entangled : Program :=
  ⟨entangledBody, 6, ⟨[(6, 14), (0, 16)], [], 18⟩⟩

private theorem load_entangled :
    Program.load (entangledBody ++ [Token.eofAt 6]) = .ok entangled := rfl

/-- The variable `a` has a value. -/
def entangledMachine : Machine :=
  { Machine.start entangled [] with symbols := ⟨[("a", 1)]⟩ }

def entangledInside : Machine :=
  { entangledMachine with rest := entangledBody.drop 6, blocks := [(.loop, 0)] }

def entangledStopped : Machine :=
  { entangledInside with rest := entangledBody.drop 16 }

private theorem step_entangledMachine : entangledMachine.step = .next entangledInside := by
  have header : entangledMachine.header .loop (entangledBody.drop 1) =
      .ok (⟨1, [(.relation .equal, 1)]⟩, entangledBody.drop 6) :=
    header_of_comparison
      (.first (.first (.first (.unsigned .identifier))) (.first (.first (.unsigned .identifier))))
      .one rfl
  have met : Formula.isMet ⟨1, [(.relation .equal, 1)]⟩ = true := by decide
  calc
    entangledMachine.step = entangledMachine.openLine .loop (entangledBody.drop 1) :=
      step_eq_line rfl (Block.opener_ne_closer .loop)
    _ = .next entangledInside := by
      simp only [openLine, header, met, if_true]
      rfl

private theorem step_entangledInside : entangledInside.step = .next entangledStopped := by
  have header : entangledInside.header .conditional (entangledBody.drop 7) =
      .ok (⟨1, [(.relation .unequal, 1)]⟩, entangledBody.drop 12) :=
    header_of_comparison
      (.first (.first (.first (.unsigned .identifier))) (.first (.first (.unsigned .identifier))))
      .one rfl
  have unmet : Formula.isMet ⟨1, [(.relation .unequal, 1)]⟩ = false := by decide
  calc
    entangledInside.step = entangledInside.openLine .conditional (entangledBody.drop 7) :=
      step_eq_line rfl (Block.opener_ne_closer .conditional)
    _ = entangledInside.skipBlock .conditional := by
      simp only [openLine, header, unmet, Bool.false_eq_true, if_false]
    _ = .next entangledStopped := rfl

private theorem runsBody_entangled : entangledMachine.RunsBody .loop entangledStopped where
  enters := ⟨_, step_entangledMachine, .step ⟨[], rfl⟩ step_entangledInside (.here ⟨[], rfl⟩)⟩
  stack := rfl
  closes := ⟨_, _, rfl, rfl⟩

end Sample

/-- If a machine executes the body of a block up to a closing word, the table of jumps leads from
the first word of the block to this closing word.  So a machine that skips the block goes on behind
the same word. -/
theorem closer?_eq_place_of_runsBody {program : Program} {stopped : Machine} {block : Block}
    {opener : Token} {tail : List Token} (loaded : Program.load tokens = .ok program)
    (running : machine.program = program) (cursor : machine.rest <:+ program.body)
    (front : machine.rest = opener :: tail) (opens : opener.kind = .keyword block.opener)
    (runs : machine.RunsBody block stopped) :
    program.destinations.closer? machine.place = some stopped.place ∧
      program.tokensFrom stopped.place = stopped.rest ∧
      ∀ other : Machine, other.program = program → other.rest = machine.rest →
        other.skipBlock block = other.finishLine stopped.rest.tail := by
  subst running
  have tabled := Program.tabled_of_load loaded
  obtain ⟨same, around, opened⟩ := runs.openAt tabled cursor front opens
  obtain ⟨token, last, rest, closes⟩ := runs.closes
  have found : machine.program.destinations.closer? machine.place = some stopped.place := by
    have paired := opened
    rw [rest] at paired
    rw [paired.closer?_eq closes tabled, place, same, rest]
  have there : machine.program.tokensFrom stopped.place = stopped.rest := by
    rw [place, same]
    exact opened.drop_length
  refine ⟨found, there, ?_⟩
  intro other sameProgram sameRest
  have samePlace : other.place = machine.place := by
    rw [place, place, sameProgram, sameRest]
  have closing : other.program.destinations.closingFrom other.place = stopped.place := by
    rw [sameProgram, samePlace]
    exact Destinations.closingFrom_of_closer? found
  simp only [skipBlock, closing, Int.toNat_natCast]
  rw [sameProgram, there, rest]
  simp only [Ending.expect, closes, if_true, List.tail_cons]

/-- The loop around the ill-nested block is left at its last word in both ways. -/
theorem closer?_eq_place_of_runsBody_entangled :
    Sample.entangled.destinations.closer? 0 = some 16 ∧
      ∀ other : Machine, other.program = Sample.entangled →
        other.rest = Sample.entangledMachine.rest →
        other.skipBlock .loop = other.finishLine (Sample.entangledBody.drop 17) := by
  obtain ⟨found, -, skips⟩ :=
    closer?_eq_place_of_runsBody Sample.load_entangled rfl (List.suffix_refl _) rfl rfl
      Sample.runsBody_entangled
  exact ⟨found, skips⟩

end Machine

end TeenyBasic
