import TeenyBasic.Proofs.MachineLines

/-!
# A machine walks through its tree

The cursor of a machine always stands where the grammar derives what remains of the program, also
behind a jump into a block, and its stack holds the blocks that a walk has entered.  One line of
the machine is one step of the walk (`alike_step`), so both come to an end with the same budget, or
neither does (`matches_run?`).
-/

namespace TeenyBasic

/-- The stack of a machine holds the blocks that a walk has entered, with the places of the words
that opened them. -/
inductive Opened (program : Program) (outside : List Enclosing) :
    List (Block × Nat) → List Frame → Prop
  | none : Opened program outside [] []
  | cons (place : Nat) (frame : Frame) {blocks frames} :
      Grammar.Remainder (program.tokensFrom place) (frame.statement :: frame.after)
        (frames.map Frame.enclosing ++ outside) →
      Opened program outside blocks frames →
      Opened program outside ((frame.block, place) :: blocks) (frame :: frames)

/-- A machine stands where a walk does.  Blocks that were never entered are around it only if a
jump led into one. -/
structure Follows (tree : List Statement) (machine : Machine) (walk : Walk) : Prop where
  suffix : machine.rest <:+ machine.program.body
  remains : Grammar.Remainder machine.rest walk.here
    (walk.frames.map Frame.enclosing ++ walk.outside)
  opened : Opened machine.program walk.outside machine.blocks walk.frames
  world : machine.world = walk.world
  jumped : walk.outside ≠ [] → ∃ name ∈ machine.targets, name ∈ Statement.nestedLabels tree

/-- A machine has stopped as a walk has.  A walk that met the end of a block that was never entered
is a machine that refused the word there, after a jump into a block. -/
inductive Matches (program : Program) (tree : List Statement) :
    Outcome × World → Machine.Stopped → Prop
  | finished {machine world} :
      Machine.world machine = world → Matches program tree (.finished, world) ⟨machine, none⟩
  | failed {machine world diagnostic} :
      Machine.world machine = world →
      Matches program tree (.failed diagnostic, world) ⟨machine, some diagnostic⟩
  | stray {machine world block token name} :
      Machine.world machine = world →
      token ∈ program.body →
      token.kind = .keyword (Block.closer block) →
      name ∈ machine.targets →
      name ∈ Statement.nestedLabels tree →
      Matches program tree (.stray block, world) ⟨machine, some (.invalidStatement token)⟩

/-- A walk and a machine have taken one step and still agree. -/
inductive Alike (program : Program) (tree : List Statement) : Walk.Step → Step → Prop
  | next {walk machine} :
      machine.program = program →
      Follows tree machine walk →
      Alike program tree (.next walk) (.next machine)
  | halt {outcome world machine} :
      Matches program tree (outcome, world) ⟨machine, none⟩ →
      Alike program tree (.stop outcome world) (.halt machine)
  | fault {outcome world machine diagnostic} :
      Matches program tree (outcome, world) ⟨machine, some diagnostic⟩ →
      Alike program tree (.stop outcome world) (.fault machine diagnostic)

theorem Opened.eq_nil {program : Program} {outside : List Enclosing}
    {blocks : List (Block × Nat)} (opened : Opened program outside blocks []) : blocks = [] := by
  cases opened with
  | none => rfl

theorem Opened.exists_cons {program : Program} {outside : List Enclosing}
    {blocks : List (Block × Nat)} {frame : Frame} {frames : List Frame}
    (opened : Opened program outside blocks (frame :: frames)) :
    ∃ place outer, blocks = (frame.block, place) :: outer ∧
      Grammar.Remainder (program.tokensFrom place) (frame.statement :: frame.after)
        (frames.map Frame.enclosing ++ outside) ∧
      Opened program outside outer frames := by
  cases opened with
  | cons _ _ remains others => exact ⟨_, _, rfl, remains, others⟩

section

variable {tree after : List Statement} {machine : Machine} {frames : List Frame}
  {outside : List Enclosing} {middle next : List Token}

private theorem alike_action {action : Action}
    (follows : Follows tree machine ⟨.action action :: after, frames, outside, machine.world⟩)
    (first : Grammar.Line machine.rest (.action action) middle)
    (ends : Grammar.Newline middle next)
    (remains : Grammar.Remainder next after (frames.map Frame.enclosing ++ outside)) :
    Alike machine.program tree
      (Walk.step tree ⟨.action action :: after, frames, outside, machine.world⟩) machine.step := by
  have suffix := (Grammar.Statements.line first ends .none).suffix.trans follows.suffix
  obtain ⟨word, text, line, tail, front, other, -⟩ := first.passes
  rw [front] at first
  rw [Machine.step_eq_line front fun block => (other block).2,
    Machine.line_of_action first ends remains.settled]
  cases done : action.perform machine.world with
  | mk world fault =>
      cases fault with
      | none =>
          rw [Walk.step_act done]
          exact .next rfl ⟨suffix, remains, follows.opened, rfl, follows.jumped⟩
      | some diagnostic =>
          rw [Walk.step_actFails done]
          exact .fault (.failed rfl)

private theorem alike_label {name : String} {place : Int}
    (follows : Follows tree machine ⟨.label name place :: after, frames, outside, machine.world⟩)
    (first : Grammar.Line machine.rest (.label name place) middle)
    (ends : Grammar.Newline middle next)
    (remains : Grammar.Remainder next after (frames.map Frame.enclosing ++ outside)) :
    Alike machine.program tree
      (Walk.step tree ⟨.label name place :: after, frames, outside, machine.world⟩)
      machine.step := by
  have suffix := (Grammar.Statements.line first ends .none).suffix.trans follows.suffix
  generalize front : machine.rest = tokens at first
  cases first with
  | label =>
      rw [Machine.step_eq_line front (by rintro (_ | _) <;> decide),
        Machine.line_of_label ends remains.settled]
      exact .next rfl ⟨suffix, remains, follows.opened, rfl, follows.jumped⟩

/-- A jump of an accepted program names a label of its tree. -/
theorem exists_locateIn {name : String} {line : Int} (shows : machine.program.Shows tree)
    (suffix : machine.rest <:+ machine.program.body)
    (first : Grammar.Line machine.rest (.goto name line) middle) :
    ∃ there enclosing, Statement.locateIn name [] tree = some (there, enclosing) := by
  obtain ⟨taken, split⟩ := suffix
  have jumps : .jumped name ∈ Naming.ofTokens machine.program.body := by
    rw [← split]
    generalize machine.rest = tokens at first
    cases first with
    | goto => exact Naming.mem_ofTokens_append taken (by simp [Naming.ofTokens, Keyword.naming])
  rw [shows.derived.namings_eq] at jumps
  have located : (Statement.locateIn name [] tree).isSome :=
    (Statement.isSome_locateIn tree).mpr (shows.declared name jumps)
  obtain ⟨⟨there, enclosing⟩, found⟩ := Option.isSome_iff_exists.mp located
  exact ⟨there, enclosing, found⟩

/-- The table leads to the tokens of a label. -/
theorem exists_tokensFrom_of_locateIn {program : Program} {name : String}
    {there : List Statement} {enclosing : List Enclosing} (shows : program.Shows tree)
    (located : Statement.locateIn name [] tree = some (there, enclosing)) :
    ∃ place, program.destinations.label? name = some place ∧
      program.tokensFrom place <:+ program.body ∧
      Grammar.Remainder (program.tokensFrom place) there enclosing := by
  obtain ⟨found, suffix, remains, text, line, text', line', more, begins⟩ :=
    Grammar.exists_remainder_of_locateIn shows.derived.statements_dropWhile
      (fun _ _ derived => .outermost derived) located
  obtain ⟨taken, split⟩ := suffix.trans (List.dropWhile_suffix _)
  obtain ⟨lastPlace, collected⟩ := shows.table
  rw [← split, begins] at collected
  have reached : program.tokensFrom taken.length = found :=
    Program.tokensFrom_eq ⟨taken, split⟩ (by rw [← split, List.length_append])
  refine ⟨taken.length, Destinations.label?_of_label collected, ?_, ?_⟩
  · rw [reached]
    exact ⟨taken, split⟩
  · rw [reached]
    exact remains

private theorem alike_goto {name : String} {line : Int} (shows : machine.program.Shows tree)
    (follows : Follows tree machine ⟨.goto name line :: after, frames, outside, machine.world⟩)
    (first : Grammar.Line machine.rest (.goto name line) middle)
    (ends : Grammar.Newline middle next) :
    Alike machine.program tree
      (Walk.step tree ⟨.goto name line :: after, frames, outside, machine.world⟩)
      machine.step := by
  obtain ⟨there, enclosing, located⟩ := exists_locateIn shows follows.suffix first
  obtain ⟨place, found, suffix, remains⟩ := exists_tokensFrom_of_locateIn shows located
  rw [Walk.step_goto located]
  generalize front : machine.rest = tokens at first
  cases first with
  | goto =>
      rw [Machine.step_eq_line front (by rintro (_ | _) <;> decide),
        Machine.line_of_goto ends found]
      refine .next (Machine.program_noteTarget name) ⟨?_, remains, .none, ?_, fun nested => ?_⟩
      · exact (Machine.program_noteTarget name) ▸ suffix
      · exact Machine.world_noteTarget name
      · refine ⟨name, Machine.mem_targets_noteTarget name, ?_⟩
        exact (Statement.eq_or_mem_of_locateIn located).resolve_left nested

private theorem alike_block {kind : Block} {condition : Condition} {body : List Statement}
    (shows : machine.program.Shows tree)
    (follows : Follows tree machine
      ⟨.block kind condition body :: after, frames, outside, machine.world⟩)
    {tokens inner last : List Token} {text text' text'' : String} {line line' line'' : Int}
    (front : machine.rest = ⟨.keyword kind.opener, text, line⟩ :: tokens)
    (header : Grammar.Comparison tokens condition
      (⟨.keyword kind.separator, text', line'⟩ :: middle))
    (ends : Grammar.Newline middle inner)
    (derived : Grammar.Statements inner body (⟨.keyword kind.closer, text'', line''⟩ :: last))
    (ends' : Grammar.Newline last next)
    (remains : Grammar.Remainder next after (frames.map Frame.enclosing ++ outside)) :
    Alike machine.program tree
      (Walk.step tree ⟨.block kind condition body :: after, frames, outside, machine.world⟩)
      machine.step := by
  have settled : Grammar.Settled inner := derived.settled (Grammar.settled_keyword _ _ _ _)
  have met := Formula.isMet_of_comparison machine header
  have opens : ∀ block : Block, kind.opener ≠ block.closer := by
    cases kind <;> rintro (_ | _) <;> decide
  rw [Machine.step_eq_line front opens, Machine.line_opener, Machine.openLine,
    Machine.header_of_comparison header ends settled]
  cases made : condition.row machine.meaning with
  | error diagnostic =>
      rw [made] at met
      rw [Walk.step_conditionFails met.symm]
      exact .fault (.failed rfl)
  | ok formula =>
      rw [made] at met
      simp only [Except.map]
      split
      · next isMet =>
        rw [Except.map, isMet] at met
        rw [Walk.step_enter met.symm]
        have suffix : inner <:+ machine.rest := by
          rw [front]
          exact (header.header_suffix ends).trans (List.suffix_cons _ _)
        have opened : Grammar.Remainder (machine.program.tokensFrom machine.place)
            (.block kind condition body :: after) (frames.map Frame.enclosing ++ outside) := by
          rw [Machine.tokensFrom_place follows.suffix]
          exact follows.remains
        exact .next rfl ⟨suffix.trans follows.suffix, .inside derived ends' remains,
          .cons machine.place ⟨kind, condition, body, after⟩ opened follows.opened, rfl,
          follows.jumped⟩
      · next isUnmet =>
        rw [Except.map, show formula.isMet = false by simpa using isUnmet] at met
        rw [Walk.step_skip met.symm,
          Machine.skipBlock_of_block shows follows.suffix front header ends derived ends'
            remains.settled]
        have suffix : next <:+ machine.rest := by
          rw [front]
          exact (Grammar.Statements.block header ends derived ends' .none).suffix
        exact .next rfl ⟨suffix.trans follows.suffix, remains, follows.opened, rfl, follows.jumped⟩

private theorem alike_end (follows : Follows tree machine ⟨[], frames, outside, machine.world⟩) :
    Alike machine.program tree (Walk.step tree ⟨[], frames, outside, machine.world⟩)
      machine.step := by
  have remains := follows.remains
  cases frames with
  | nil =>
      have none := follows.opened.eq_nil
      cases outside with
      | nil =>
          have halts : machine.step = .halt machine := by
            simp [Machine.step, remains.eq_nil, none]
          rw [halts]
          exact .halt (.finished rfl)
      | cons enclosing others =>
          -- the word closes a block that a jump led into
          obtain ⟨text, line, tail, -, front, -, -⟩ := remains.exists_closer
          obtain ⟨name, executed, nested⟩ := follows.jumped (List.cons_ne_nil _ _)
          have member := follows.suffix.subset (front ▸ List.mem_cons_self)
          rw [Machine.step_of_stray front none]
          exact .fault (.stray rfl member rfl executed nested)
  | cons frame frames =>
      obtain ⟨place, outer, stack, loops, opened⟩ := follows.opened.exists_cons
      obtain ⟨text, line, tail, next, front, ends, behind⟩ := remains.exists_closer
      rw [Machine.step_of_closer front stack]
      obtain ⟨kind, condition, body, after⟩ := frame
      cases kind with
      | conditional =>
          have suffix : next <:+ machine.rest := by
            rw [front]
            exact ends.passes.suffix.trans (List.suffix_cons _ _)
          rw [Machine.closeLine, Machine.finishLine_of_newline ends behind.settled]
          exact .next rfl ⟨suffix.trans follows.suffix, behind, opened, rfl, follows.jumped⟩
      | loop =>
          -- the cursor goes back to the opening word, where the whole block remains
          exact .next rfl ⟨List.drop_suffix _ _, loops, opened, rfl, follows.jumped⟩

/-- One line of the machine is one step of the walk. -/
theorem alike_step {walk : Walk} (shows : machine.program.Shows tree)
    (follows : Follows tree machine walk) :
    Alike machine.program tree (walk.step tree) machine.step := by
  obtain ⟨here, frames, outside, world⟩ := walk
  obtain rfl : machine.world = world := follows.world
  cases here with
  | nil => exact alike_end follows
  | cons statement after =>
      have inFront := follows.remains.front
      generalize front : machine.rest = tokens at inFront
      cases inFront with
      | line first ends remains =>
          cases statement with
          | block kind condition body => cases first
          | action action => exact alike_action follows (front ▸ first) ends remains
          | label name line => exact alike_label follows (front ▸ first) ends remains
          | goto name line => exact alike_goto shows follows (front ▸ first) ends
      | block header ends derived ends' remains =>
          exact alike_block shows follows front header ends derived ends' remains

end

/-- A machine and a walk that agree come to the same end with the same budget, or to none. -/
theorem matches_run? {program : Program} {tree : List Statement} {machine : Machine} {walk : Walk}
    (shows : program.Shows tree) (same : machine.program = program)
    (follows : Follows tree machine walk) (budget : Nat) :
    Option.Rel (Matches program tree) (Walk.run? tree budget walk) (machine.run? budget) := by
  induction budget generalizing machine walk with
  | zero => exact .none
  | succ budget induction =>
      subst same
      have alike := alike_step shows follows
      rw [Walk.run?, Machine.run?]
      generalize walk.step tree = step at alike
      generalize machine.step = step' at alike
      cases alike with
      | next same follows => exact induction same follows
      | halt ended => exact .some ended
      | fault ended => exact .some ended

theorem follows_start {program : Program} {tree : List Statement} (shows : program.Shows tree)
    (input : List Char) :
    Follows tree (Machine.start program input) ⟨tree, [], [], World.start input⟩ where
  suffix := List.dropWhile_suffix _
  remains := .outermost shows.derived.statements_dropWhile
  opened := .none
  world := rfl
  jumped := fun nested => absurd rfl nested

end TeenyBasic
