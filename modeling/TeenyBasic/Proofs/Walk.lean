import TeenyBasic.Proofs.BigStep

/-!
# Walking through a tree

A walk executes the statements of a tree one at a time.  It knows the statements up to the end of
the innermost block, the blocks that it has entered, and the blocks around those: a jump may lead
into a block that was never entered, and such a block cannot be left at its end.

Where no label stands inside a block, a walk comes to an end exactly if the tree runs to one, with
the same outcome and the same world (`runsToEnd_iff`).
-/

namespace TeenyBasic

theorem Expression.declared_notMem_namings (expression : Expression) (name : String) :
    Naming.declared name ∉ expression.namings := by
  induction expression <;> simp_all [namings]

theorem Condition.declared_notMem_namings (condition : Condition) (name : String) :
    Naming.declared name ∉ condition.namings := by
  induction condition <;> simp_all [namings, Expression.declared_notMem_namings]

theorem Action.declared_notMem_namings (action : Action) (name : String) :
    Naming.declared name ∉ action.namings := by
  cases action <;> simp [namings, Expression.declared_notMem_namings]

namespace Statement

mutual

@[simp] theorem isSome_locate {name : String} {rest : List Statement} {enclosing : List Enclosing}
    (statement : Statement) :
    (statement.locate name rest enclosing).isSome ↔ .declared name ∈ statement.namings := by
  cases statement with
  | action simple => simp [locate, namings, simple.declared_notMem_namings]
  | label other line =>
      by_cases same : other = name
      · simp [locate, namings, same]
      · simp [locate, namings, same, Ne.symm same]
  | goto other line => simp [locate, namings]
  | block kind condition body =>
      simp [locate, namings, condition.declared_notMem_namings, isSome_locateIn body]

/-- A label is located exactly if it is declared. -/
@[simp] theorem isSome_locateIn {name : String} {enclosing : List Enclosing}
    (statements : List Statement) :
    (locateIn name enclosing statements).isSome ↔ .declared name ∈ namingsOf statements := by
  cases statements with
  | nil => simp [locateIn, namingsOf]
  | cons statement rest =>
      simp [locateIn, namingsOf, isSome_locate statement, isSome_locateIn rest]

end

@[simp] theorem mem_labelsOf {statements : List Statement} {name : String} :
    name ∈ labelsOf statements ↔ .declared name ∈ namingsOf statements := by
  rw [labelsOf, List.mem_filterMap]
  constructor
  · rintro ⟨naming, member, found⟩
    cases naming <;> simp [Naming.label?] at found
    exact found ▸ member
  · exact fun member => ⟨_, member, rfl⟩

/-- A label is located in no block, unless it is nested in one. -/
theorem eq_or_mem_of_locateIn {name : String} {enclosing within : List Enclosing}
    {statements there : List Statement}
    (located : locateIn name enclosing statements = some (there, within)) :
    within = enclosing ∨ name ∈ nestedLabels statements := by
  induction statements with
  | nil => simp [locateIn] at located
  | cons statement rest induction =>
      rw [locateIn, Option.or_eq_some_iff] at located
      cases statement with
      | action simple =>
          simpa [locate, nestedLabels] using induction (by simpa [locate] using located)
      | goto other line =>
          simpa [locate, nestedLabels] using induction (by simpa [locate] using located)
      | label other line =>
          by_cases same : other = name
          · simp only [locate, same, if_true, Option.some.injEq, Prod.mk.injEq, reduceCtorEq,
              false_and, or_false] at located
            exact .inl located.2.symm
          · exact induction (by simpa [locate, same] using located)
      | block kind condition body =>
          simp only [locate] at located
          rw [nestedLabels, List.mem_append, mem_labelsOf, ← isSome_locateIn]
          obtain inside | ⟨-, behind⟩ := located
          · exact .inr (.inl (by rw [inside]; rfl))
          · exact (induction behind).imp_right .inr

/-- Where no label is nested, labels are located among the statements in no block. -/
theorem locateIn_eq_fromLabel? {statements : List Statement} (name : String)
    (plain : nestedLabels statements = []) :
    locateIn name [] statements = (fromLabel? name statements).map (·, []) := by
  induction statements with
  | nil => rfl
  | cons statement rest induction =>
      rw [locateIn]
      cases statement with
      | action simple => simpa [locate, fromLabel?] using induction plain
      | goto other line => simpa [locate, fromLabel?] using induction plain
      | label other line =>
          by_cases same : other = name
          · simp [locate, fromLabel?, same]
          · simpa [locate, fromLabel?, same] using induction plain
      | block kind condition body =>
          rw [nestedLabels, List.append_eq_nil_iff] at plain
          have absent : locateIn name [⟨kind, rest⟩] body = none := by
            rw [← Option.not_isSome_iff_eq_none, isSome_locateIn, ← mem_labelsOf, plain.1]
            simp
          simpa [locate, fromLabel?, absent] using induction plain.2

end Statement

/-- A block that was entered: what it is made of and what follows it. -/
structure Frame where
  block : Block
  condition : Condition
  body : List Statement
  after : List Statement

def Frame.statement (frame : Frame) : Statement :=
  .block frame.block frame.condition frame.body

def Frame.enclosing (frame : Frame) : Enclosing :=
  ⟨frame.block, frame.after⟩

/-- Where the end of the block leads: back to a loop, and past any other block. -/
def Frame.behind (frame : Frame) : List Statement :=
  match frame.block with
  | .conditional => frame.after
  | .loop => frame.statement :: frame.after

private theorem Runs.enter {kind : Block} {condition : Condition} {body rest : List Statement}
    {world after final : World} {exit : Exit}
    (met : condition.isMet world.symbols = .ok true) (inside : Runs body world .finished after)
    (others : Runs (Frame.behind ⟨kind, condition, body, rest⟩) after exit final) :
    Runs (.block kind condition body :: rest) world exit final := by
  cases kind with
  | conditional => exact .once met inside others
  | loop => exact .again met inside others

/-- A place in a tree, with the blocks that were entered and those around them, innermost first. -/
structure Walk where
  here : List Statement
  frames : List Frame
  outside : List Enclosing
  world : World

/-- How a walk ends: at the end of the program, with a fault, or at the end of a block that was
never entered. -/
inductive Outcome
  | finished
  | failed (diagnostic : Diagnostic)
  | stray (block : Block)

/-- The outcome of a run that ended with a fault or without one. -/
def Outcome.ofFault : Option Diagnostic → Outcome
  | none => .finished
  | some diagnostic => .failed diagnostic

/-- What one statement leads to.  A jump to a label that does not exist is lost. -/
inductive Walk.Step
  | next (walk : Walk)
  | stop (outcome : Outcome) (world : World)
  | lost

namespace Walk

/-- Executes one statement, or leaves a block. -/
def step (program : List Statement) (walk : Walk) : Step :=
  match walk.here with
  | [] =>
      match walk.frames, walk.outside with
      | frame :: outer, _ => .next { walk with here := frame.behind, frames := outer }
      | [], enclosing :: _ => .stop (.stray enclosing.block) walk.world
      | [], [] => .stop .finished walk.world
  | .action action :: rest =>
      match action.perform walk.world with
      | (world, none) => .next { walk with here := rest, world := world }
      | (world, some diagnostic) => .stop (.failed diagnostic) world
  | .label _ _ :: rest => .next { walk with here := rest }
  | .goto name _ :: _ =>
      match Statement.locateIn name [] program with
      | some (there, enclosing) => .next ⟨there, [], enclosing, walk.world⟩
      | none => .lost
  | .block kind condition body :: rest =>
      match condition.isMet walk.world.symbols with
      | .ok true =>
          .next { walk with here := body, frames := ⟨kind, condition, body, rest⟩ :: walk.frames }
      | .ok false => .next { walk with here := rest }
      | .error diagnostic => .stop (.failed diagnostic) walk.world

/-- A step fails only for a variable that has no value. -/
theorem isUnassigned_of_step {program : List Statement} {walk : Walk} {diagnostic : Diagnostic}
    {world : World} (fails : walk.step program = .stop (.failed diagnostic) world) :
    diagnostic.IsUnassigned := by
  unfold step at fails
  split at fails
  · split at fails <;> simp at fails
  · next done =>
    split at fails
    · simp at fails
    · next done =>
      simp only [Step.stop.injEq, Outcome.failed.injEq] at fails
      exact Action.isUnassigned_of_perform (fails.1 ▸ done)
  · simp at fails
  · split at fails <;> simp at fails
  · split at fails
    · simp at fails
    · simp at fails
    · next unmet =>
      simp only [Step.stop.injEq, Outcome.failed.injEq] at fails
      exact Condition.isUnassigned_of_isMet (fails.1 ▸ unmet)

section

variable {program here rest : List Statement} {frames : List Frame} {outside : List Enclosing}
  {world after : World} {action : Action} {diagnostic : Diagnostic} {kind : Block}
  {condition : Condition} {body : List Statement}

@[simp] theorem step_act (done : action.perform world = (after, none)) :
    step program ⟨.action action :: rest, frames, outside, world⟩ =
      .next ⟨rest, frames, outside, after⟩ := by
  simp [step, done]

@[simp] theorem step_actFails (fails : action.perform world = (after, some diagnostic)) :
    step program ⟨.action action :: rest, frames, outside, world⟩ =
      .stop (.failed diagnostic) after := by
  simp [step, fails]

@[simp] theorem step_goto {name : String} {line : Int} {there : List Statement}
    {enclosing : List Enclosing}
    (located : Statement.locateIn name [] program = some (there, enclosing)) :
    step program ⟨.goto name line :: rest, frames, outside, world⟩ =
      .next ⟨there, [], enclosing, world⟩ := by
  simp [step, located]

@[simp] theorem step_enter (met : condition.isMet world.symbols = .ok true) :
    step program ⟨.block kind condition body :: rest, frames, outside, world⟩ =
      .next ⟨body, ⟨kind, condition, body, rest⟩ :: frames, outside, world⟩ := by
  simp [step, met]

@[simp] theorem step_skip (unmet : condition.isMet world.symbols = .ok false) :
    step program ⟨.block kind condition body :: rest, frames, outside, world⟩ =
      .next ⟨rest, frames, outside, world⟩ := by
  simp [step, unmet]

@[simp] theorem step_conditionFails (fails : condition.isMet world.symbols = .error diagnostic) :
    step program ⟨.block kind condition body :: rest, frames, outside, world⟩ =
      .stop (.failed diagnostic) world := by
  simp [step, fails]

end

/-- Takes at most the given number of steps; there is no answer if that was not enough. -/
def run? (program : List Statement) : Nat → Walk → Option (Outcome × World)
  | 0, _ => none
  | budget + 1, walk =>
      match walk.step program with
      | .next walk => run? program budget walk
      | .stop outcome world => some (outcome, world)
      | .lost => none

variable {program : List Statement} {budget : Nat} {frames : List Frame} {world : World}
  {result : Outcome × World}

theorem run?_of_next {walk next : Walk} (leads : walk.step program = .next next) :
    run? program (budget + 1) walk = run? program budget next := by
  rw [run?, leads]

theorem run?_of_stop {walk : Walk} {outcome : Outcome}
    (stops : walk.step program = .stop outcome world) :
    run? program (budget + 1) walk = some (outcome, world) := by
  rw [run?, stops]

/-- What a walk does when the statements up to the end of the innermost block have come to an
exit: it ends in the same way, with the budget that is left. -/
def Resumes (program : List Statement) (budget : Nat) (frames : List Frame)
    (result : Outcome × World) : Exit → World → Prop
  | .finished, world => ∃ left ≤ budget, run? program left ⟨[], frames, [], world⟩ = some result
  | .failed diagnostic, world => result = (.failed diagnostic, world)
  | .jumped name, world =>
      ∃ there, Statement.fromLabel? name program = some there ∧
        ∃ left < budget, run? program left ⟨there, [], [], world⟩ = some result

theorem Resumes.mono {exit : Exit} {larger : Nat} (enough : budget ≤ larger)
    (resumes : Resumes program budget frames result exit world) :
    Resumes program larger frames result exit world := by
  cases exit with
  | finished =>
      obtain ⟨left, bound, ends⟩ := resumes
      exact ⟨left, Nat.le_trans bound enough, ends⟩
  | failed diagnostic => exact resumes
  | jumped name =>
      obtain ⟨there, found, left, bound, ends⟩ := resumes
      exact ⟨there, found, left, Nat.lt_of_lt_of_le bound enough, ends⟩

/-- Jumps and faults take no notice of the blocks that were entered. -/
theorem Resumes.leave {exit : Exit} (left : exit ≠ .finished)
    (resumes : Resumes program budget frames result exit world) (others : List Frame) :
    Resumes program budget others result exit world := by
  cases exit with
  | finished => exact absurd rfl left
  | failed diagnostic => exact resumes
  | jumped name => exact resumes

theorem resumes_behind (frame : Frame)
    (ends : run? program budget ⟨frame.behind, frames, [], world⟩ = some result) :
    Resumes program (budget + 1) (frame :: frames) result .finished world :=
  ⟨budget + 1, Nat.le_refl _, by rw [run?_of_next rfl]; exact ends⟩

/-- A walk that ends runs the statements before it to some exit. -/
theorem exists_runs_of_run? {here : List Statement}
    (plain : Statement.nestedLabels program = [])
    (ends : run? program budget ⟨here, frames, [], world⟩ = some result) :
    ∃ exit final, Runs here world exit final ∧
      Resumes program budget frames result exit final := by
  -- strong induction: a block takes two parts of the budget, its body and what comes then
  induction budget using Nat.strongRecOn generalizing here frames world with
  | ind budget induction =>
  obtain _ | budget := budget
  · simp [run?] at ends
  cases here with
  | nil => exact ⟨.finished, world, .nil, budget + 1, Nat.le_refl _, ends⟩
  | cons statement rest =>
      cases statement with
      | action action =>
          cases done : action.perform world with
          | mk after fault =>
              cases fault with
              | none =>
                  rw [run?_of_next (step_act done)] at ends
                  obtain ⟨exit, final, runs, resumes⟩ := induction budget (Nat.lt_succ_self _) ends
                  exact ⟨exit, final, .act done runs, resumes.mono (Nat.le_succ _)⟩
              | some diagnostic =>
                  rw [run?_of_stop (step_actFails done)] at ends
                  exact ⟨.failed diagnostic, after, .actFails done, (Option.some.inj ends).symm⟩
      | label name line =>
          rw [run?_of_next rfl] at ends
          obtain ⟨exit, final, runs, resumes⟩ := induction budget (Nat.lt_succ_self _) ends
          exact ⟨exit, final, .label runs, resumes.mono (Nat.le_succ _)⟩
      | goto name line =>
          have located := Statement.locateIn_eq_fromLabel? name plain
          cases found : Statement.fromLabel? name program with
          | none => simp [run?, step, located, found] at ends
          | some there =>
              rw [found] at located
              rw [run?_of_next (step_goto located)] at ends
              exact ⟨.jumped name, world, .goto, there, found, budget, Nat.lt_succ_self _, ends⟩
      | block kind condition body =>
          cases met : condition.isMet world.symbols with
          | error diagnostic =>
              rw [run?_of_stop (step_conditionFails met)] at ends
              exact ⟨.failed diagnostic, world, .conditionFails met, (Option.some.inj ends).symm⟩
          | ok outcome =>
              cases outcome with
              | false =>
                  rw [run?_of_next (step_skip met)] at ends
                  obtain ⟨exit, final, runs, resumes⟩ := induction budget (Nat.lt_succ_self _) ends
                  exact ⟨exit, final, .skip met runs, resumes.mono (Nat.le_succ _)⟩
              | true =>
                  rw [run?_of_next (step_enter met)] at ends
                  obtain ⟨exit, final, runs, resumes⟩ := induction budget (Nat.lt_succ_self _) ends
                  by_cases finished : exit = .finished
                  · -- the walk goes on at `Frame.behind`, which is the block again if it is a loop
                    subst finished
                    obtain ⟨left, bound, ends⟩ := resumes
                    obtain _ | left := left
                    · simp [run?] at ends
                    rw [run?_of_next rfl] at ends
                    obtain ⟨exit, last, others, resumes⟩ := induction left (by omega) ends
                    exact ⟨exit, last, .enter met runs others, resumes.mono (by omega)⟩
                  · exact ⟨exit, final, .leave met runs finished,
                      (resumes.leave finished frames).mono (Nat.le_succ _)⟩

/-- A run of the statements before it brings a walk to whatever end it resumes to. -/
theorem exists_run?_of_runs {here : List Statement} {exit : Exit} {final : World}
    (plain : Statement.nestedLabels program = []) (runs : Runs here world exit final)
    (resumes : Resumes program budget frames result exit final) :
    ∃ enough, run? program enough ⟨here, frames, [], world⟩ = some result := by
  induction runs generalizing frames budget with
  | nil =>
      obtain ⟨left, -, ends⟩ := resumes
      exact ⟨left, ends⟩
  | act done _ induction =>
      obtain ⟨enough, ends⟩ := induction resumes
      exact ⟨enough + 1, by rw [run?_of_next (step_act done), ends]⟩
  | actFails done =>
      exact ⟨1, by rw [run?_of_stop (step_actFails done), resumes]⟩
  | label _ induction =>
      obtain ⟨enough, ends⟩ := induction resumes
      exact ⟨enough + 1, by rw [run?_of_next rfl, ends]⟩
  | @goto name =>
      obtain ⟨there, found, left, -, ends⟩ := resumes
      have located := Statement.locateIn_eq_fromLabel? name plain
      rw [found] at located
      exact ⟨left + 1, by rw [run?_of_next (step_goto located), ends]⟩
  | conditionFails fails =>
      exact ⟨1, by rw [run?_of_stop (step_conditionFails fails), resumes]⟩
  | skip unmet _ induction =>
      obtain ⟨enough, ends⟩ := induction resumes
      exact ⟨enough + 1, by rw [run?_of_next (step_skip unmet), ends]⟩
  | @once condition body rest _ _ _ _ met _ _ bodyInduction induction =>
      obtain ⟨enough, ends⟩ := induction resumes
      obtain ⟨more, ends⟩ :=
        bodyInduction (resumes_behind ⟨.conditional, condition, body, rest⟩ ends)
      exact ⟨more + 1, by rw [run?_of_next (step_enter met), ends]⟩
  | @again condition body rest _ _ _ _ met _ _ bodyInduction induction =>
      obtain ⟨enough, ends⟩ := induction resumes
      obtain ⟨more, ends⟩ := bodyInduction (resumes_behind ⟨.loop, condition, body, rest⟩ ends)
      exact ⟨more + 1, by rw [run?_of_next (step_enter met), ends]⟩
  | leave met _ left induction =>
      obtain ⟨enough, ends⟩ := induction (resumes.leave left _)
      exact ⟨enough + 1, by rw [run?_of_next (step_enter met), ends]⟩

/-- Where no label is nested, walking to the end of a program and running it are the same. -/
theorem runsToEnd_iff {here : List Statement} {fault : Option Diagnostic} {final : World}
    (plain : Statement.nestedLabels program = []) :
    RunsToEnd program here world fault final ↔
      ∃ budget, run? program budget ⟨here, [], [], world⟩ = some (.ofFault fault, final) := by
  constructor
  · intro runs
    induction runs with
    | finished runs =>
        exact exists_run?_of_runs plain runs ⟨1, Nat.le_refl _, run?_of_stop rfl⟩
    | @failed _ _ diagnostic final runs =>
        have resumes :
            Resumes program 0 [] (.failed diagnostic, final) (.failed diagnostic) final := rfl
        exact exists_run?_of_runs plain runs resumes
    | jumped runs found _ induction =>
        obtain ⟨budget, ends⟩ := induction
        exact exists_run?_of_runs plain runs ⟨_, found, budget, Nat.lt_succ_self _, ends⟩
  · rintro ⟨budget, ends⟩
    -- each jump leaves less of the budget
    induction budget using Nat.strongRecOn generalizing here world with
    | ind budget induction =>
    obtain ⟨exit, middle, runs, resumes⟩ := exists_runs_of_run? plain ends
    cases exit with
    | finished =>
        obtain ⟨left, -, ends⟩ := resumes
        obtain _ | left := left
        · simp [run?] at ends
        rw [run?_of_stop rfl] at ends
        cases fault with
        | none =>
            simp only [Outcome.ofFault, Option.some.injEq, Prod.mk.injEq, true_and] at ends
            exact ends ▸ .finished runs
        | some diagnostic => simp [Outcome.ofFault] at ends
    | failed diagnostic =>
        cases fault with
        | none => simp [Resumes, Outcome.ofFault] at resumes
        | some other =>
            simp only [Resumes, Outcome.ofFault, Prod.mk.injEq, Outcome.failed.injEq] at resumes
            obtain ⟨rfl, rfl⟩ := resumes
            exact .failed runs
    | jumped name =>
        obtain ⟨there, found, left, bound, ends⟩ := resumes
        exact .jumped runs found (induction left bound ends)

/-- A walk fails only for a variable that has no value. -/
theorem isUnassigned_of_run? {walk : Walk} {diagnostic : Diagnostic} {final : World}
    (fails : run? program budget walk = some (.failed diagnostic, final)) :
    diagnostic.IsUnassigned := by
  induction budget generalizing walk with
  | zero => simp [run?] at fails
  | succ budget induction =>
      rw [run?] at fails
      cases taken : walk.step program with
      | next next =>
          rw [taken] at fails
          exact induction fails
      | lost => simp [taken] at fails
      | stop outcome world =>
          simp only [taken, Option.some.injEq, Prod.mk.injEq] at fails
          obtain ⟨rfl, rfl⟩ := fails
          exact isUnassigned_of_step taken

end Walk

end TeenyBasic
