import TeenyBasic.Proofs.Acceptance
import TeenyBasic.Proofs.JumpTable
import TeenyBasic.Proofs.MachineLines

/-!
# Programs without blocks and jumps

Putting a program into C and running it are two walks through the same tokens.  The first knows the
names that were assigned, the second their values.  Where nothing decides which line comes next,
both walks go through the same lines, and as long as the same names are known to both they refuse
the same token for the same reason.  So a program without blocks and jumps, right or wrong, is
refused by both with one diagnostic or by neither (`ends_iff_refusal?_eq`).
-/

namespace TeenyBasic

/-- The two readers know the same variables. -/
def Meaning.SameNames {α β : Type} (left : Meaning α) (right : Meaning β) : Prop :=
  ∀ name, (left.lookup name).isSome = (right.lookup name).isSome

namespace Formula

variable {α β : Type} {left : Meaning α} {right : Meaning β}

private theorem primary_alike (same : left.SameNames right) (token : Token) :
    (primary left token).map (fun _ => ()) = (primary right token).map (fun _ => ()) := by
  obtain ⟨lexeme, text, line⟩ := token
  cases lexeme with
  | identifier name =>
      have known := same name
      simp only [primary]
      cases found : left.lookup name with
      | none =>
          rw [found, Option.isSome_none, eq_comm, Option.isSome_eq_false_iff,
            Option.isNone_iff_eq_none] at known
          rw [known]
          rfl
      | some value =>
          rw [found, Option.isSome_some, eq_comm, Option.isSome_iff_exists] at known
          obtain ⟨other, found'⟩ := known
          rw [found']
          rfl
  | _ => rfl

theorem primaryBehind_alike (same : left.SameNames right) (ending : Ending) (sign : α → α)
    (sign' : β → β) (tokens : List Token) :
    (primaryBehind left ending sign tokens).map Prod.snd =
      (primaryBehind right ending sign' tokens).map Prod.snd := by
  cases tokens with
  | nil => rfl
  | cons token rest =>
      have alike := primary_alike same token
      simp only [primaryBehind]
      cases first : primary left token <;> cases second : primary right token <;>
        simp_all [Except.map]

theorem operand_alike (same : left.SameNames right) (ending : Ending) (tokens : List Token) :
    (operand left ending tokens).map Prod.snd = (operand right ending tokens).map Prod.snd := by
  cases tokens with
  | nil => rfl
  | cons token rest =>
      obtain ⟨lexeme, text, line⟩ := token
      have unsigned := primaryBehind_alike same ending id id (⟨lexeme, text, line⟩ :: rest)
      -- only a sign is taken apart from the operand behind it
      cases lexeme with
      | arithmetic operator =>
          cases operator with
          | plus => exact primaryBehind_alike same ending left.positive right.positive rest
          | minus => exact primaryBehind_alike same ending left.negative right.negative rest
          | times | divide => exact unsigned
      | _ => exact unsigned

theorem eq_error_of_alike {first : Except Diagnostic (α × List Token)}
    {second : Except Diagnostic (β × List Token)} {diagnostic : Diagnostic}
    (alike : first.map Prod.snd = second.map Prod.snd) (refused : first = .error diagnostic) :
    second = .error diagnostic := by
  subst refused
  cases second with
  | error other =>
      simp only [Except.map, Except.error.injEq] at alike
      rw [alike]
  | ok result => simp [Except.map] at alike

theorem exists_ok_of_alike {first : Except Diagnostic (α × List Token)}
    {second : Except Diagnostic (β × List Token)} {value : α} {rest : List Token}
    (alike : first.map Prod.snd = second.map Prod.snd) (taken : first = .ok (value, rest)) :
    ∃ value', second = .ok (value', rest) := by
  subst taken
  cases second with
  | error other => simp [Except.map] at alike
  | ok result =>
      simp only [Except.map, Except.ok.injEq] at alike
      exact ⟨result.1, by rw [alike]⟩

private theorem operandsAfter_alike (same : left.SameNames right) (ending : Ending)
    (accepts : Operator → Bool) (tokens : List Token) :
    (operandsAfter accepts left ending tokens).map Prod.snd =
      (operandsAfter accepts right ending tokens).map Prod.snd := by
  fun_induction operandsAfter accepts left ending tokens with
  | case1 =>
      rw [operandsAfter]
      rfl
  | case2 token rest other =>
      rw [operandsAfter, other]
      rfl
  | case3 token rest operator found accepted diagnostic refused =>
      have refused' := eq_error_of_alike (operand_alike same ending rest) refused
      rw [operandsAfter, found]
      simp only [accepted, if_true]
      rw [refused']
      rfl
  | case4 token rest operator found accepted value after taken diagnostic refused induction =>
      obtain ⟨value', taken'⟩ := exists_ok_of_alike (operand_alike same ending rest) taken
      have refused' := eq_error_of_alike induction refused
      rw [operandsAfter, found]
      simp only [accepted, if_true]
      rw [taken']
      simp only [refused']
      rfl
  | case5 token rest operator found accepted value after taken others last further induction =>
      obtain ⟨value', taken'⟩ := exists_ok_of_alike (operand_alike same ending rest) taken
      obtain ⟨others', further'⟩ := exists_ok_of_alike induction further
      rw [operandsAfter, found]
      simp only [accepted, if_true]
      rw [taken']
      simp only [further']
      rfl
  | case6 token rest operator found refused =>
      rw [operandsAfter, found]
      simp only [refused, Bool.false_eq_true, if_false]
      rfl

/-- Readers who know the same variables refuse an expression for the same reason, or both leave the
same tokens. -/
theorem expression_alike (same : left.SameNames right) (ending : Ending) (tokens : List Token) :
    (expression left ending tokens).map Prod.snd =
      (expression right ending tokens).map Prod.snd := by
  have alike := operand_alike same ending tokens
  unfold expression read
  cases taken : operand left ending tokens with
  | error diagnostic =>
      rw [eq_error_of_alike alike taken]
      rfl
  | ok result =>
      obtain ⟨value, rest⟩ := result
      obtain ⟨value', taken'⟩ := exists_ok_of_alike alike taken
      have further := operandsAfter_alike same ending Operator.isArithmetic rest
      rw [taken']
      simp only
      cases others : operandsAfter Operator.isArithmetic left ending rest with
      | error diagnostic =>
          rw [eq_error_of_alike further others]
          rfl
      | ok result =>
          obtain ⟨row, last⟩ := result
          obtain ⟨row', others'⟩ := exists_ok_of_alike further others
          rw [others']
          rfl

end Formula

namespace Destinations

/-- A table in which the labels are declared can be completed by the tokens. -/
def Completes (labels : List String) (tokens : List Token) : Prop :=
  ∃ destinations blocks place final, collect destinations blocks place tokens = .ok final ∧
    ∀ name ∈ labels, (destinations.label? name).isSome

theorem Grows.isSome_label? {destinations next : Destinations} {name : String}
    (grows : Grows destinations next) (known : (destinations.label? name).isSome) :
    (next.label? name).isSome := by
  obtain ⟨more, whole⟩ := grows.labels
  simp only [label?, Option.isSome_map, ← whole, List.find?_append, Option.isSome_or] at known ⊢
  simp [known]

theorem Completes.suffix {labels : List String} {tokens rest : List Token}
    (completes : Completes labels tokens) (suffix : rest <:+ tokens) : Completes labels rest := by
  obtain ⟨taken, rfl⟩ := suffix
  induction taken with
  | nil => exact completes
  | cons token taken induction =>
      obtain ⟨destinations, blocks, place, final, collected, known⟩ := completes
      obtain ⟨next, inner, further, grows, -⟩ := exists_collect_of_cons collected
      apply induction
      refine ⟨next, inner, place + 1, final, further, ?_⟩
      intro name member
      exact grows.isSome_label? (known name member)

/-- A label that is declared in front is a new one. -/
theorem Completes.label {labels : List String} {name text text' : String} {line line' : Int}
    {rest : List Token}
    (completes : Completes labels
      (⟨.keyword .labelWord, text, line⟩ :: ⟨.identifier name, text', line'⟩ :: rest)) :
    name ∉ labels ∧ Completes (name :: labels) rest := by
  obtain ⟨destinations, blocks, place, final, collected, known⟩ := completes
  simp only [collect, declare] at collected
  split at collected
  · simp at collected
  · next next declared =>
    split at declared
    · simp at declared
    · next fresh =>
      simp only [Except.ok.injEq] at declared
      subst declared
      constructor
      · intro member
        exact fresh (known name member)
      · refine ⟨_, _, _, final, collected, ?_⟩
        intro other member
        rcases List.mem_cons.mp member with rfl | member
        · simp [label?, List.find?_append]
        · have grows : Grows destinations
              { destinations with labels := destinations.labels ++ [(name, place)] } :=
            ⟨List.prefix_refl _, List.prefix_append _ _⟩
          exact grows.isSome_label? (known other member)

end Destinations

/-- A C program being written and a machine outside of every block know the same names, and the
table of jumps has room for the labels that follow. -/
structure Abreast (draft : Draft) (machine : Machine) : Prop where
  names : ∀ name, draft.assigned.contains name = (machine.symbols.get? name).isSome
  outside : machine.blocks = []
  noJumps : draft.jumps = []
  completes : Destinations.Completes draft.labels machine.rest

/-- The two walks have taken one line and stand in front of the same tokens, or both have refused
it. -/
inductive Level (before : Machine) :
    Except Diagnostic (Draft × List Block × List Token) → Step → Prop
  | next {draft machine} :
      machine.program = before.program →
      machine.rest <:+ before.rest →
      Abreast draft machine →
      Level before (.ok (draft, [], machine.rest)) (.next machine)
  | fault {machine diagnostic} : Level before (.error diagnostic) (.fault machine diagnostic)

namespace Abreast

variable {draft : Draft} {machine : Machine}

theorem sameNames (abreast : Abreast draft machine) :
    draft.meaning.SameNames machine.meaning := by
  intro name
  have known := abreast.names name
  simp only [Draft.meaning, Machine.meaning]
  rw [← known]
  split <;> simp_all

theorem writeLine (abreast : Abreast draft machine) (code : String) :
    Abreast (draft.writeLine code) machine :=
  ⟨abreast.names, abreast.outside, abreast.noJumps, abreast.completes⟩

theorem print (abreast : Abreast draft machine) (text : String) :
    Abreast draft (machine.print text) :=
  ⟨abreast.names, abreast.outside, abreast.noJumps, abreast.completes⟩

private theorem contains_declare (draft : Draft) (name other : String) :
    (draft.declare name).assigned.contains other =
      (draft.assigned.contains other || decide (other = name)) := by
  unfold Draft.declare
  split
  · next known =>
    by_cases same : other = name
    · subst same
      simpa using known
    · simp [same]
  · by_cases same : other = name
    · simp [same]
    · simp [same]

/-- Whatever gives a variable a value is abreast of a declaration. -/
theorem declare (abreast : Abreast draft machine) (name : String) {symbols : Symbols}
    (assigned : ∀ other, (symbols.get? other).isSome =
      ((machine.symbols.get? other).isSome || decide (other = name))) :
    Abreast (draft.declare name) { machine with symbols := symbols } where
  names other := by rw [contains_declare, assigned, abreast.names]
  outside := abreast.outside
  noJumps := by rw [Draft.jumps_declare, abreast.noJumps]
  completes := by
    rw [Draft.labels_declare]
    exact abreast.completes

@[simp] theorem isSome_get?_set (symbols : Symbols) (name other : String) (value : Float) :
    ((symbols.set name value).get? other).isSome =
      ((symbols.get? other).isSome || decide (other = name)) := by
  rw [Symbols.get?_set]
  by_cases same : other = name
  · simp [same]
  · simp [same]

@[simp] theorem isSome_get?_declare (symbols : Symbols) (name other : String) :
    ((symbols.declare name).get? other).isSome =
      ((symbols.get? other).isSome || decide (other = name)) := by
  unfold Symbols.declare
  split
  · next known =>
    by_cases same : other = name
    · subst same
      simp [known]
    · simp [same]
  · exact isSome_get?_set symbols name other 0

theorem assign (abreast : Abreast draft machine) {name : String}
    (known : (machine.symbols.get? name).isSome) (value : Float) :
    Abreast draft (machine.assign name value) where
  names other := by
    have names := abreast.names other
    simp only [Machine.assign]
    rw [isSome_get?_set, names]
    by_cases same : other = name
    · subst same
      simp [known]
    · simp [same]
  outside := abreast.outside
  noJumps := abreast.noJumps
  completes := abreast.completes

/-- The end of a line is taken or refused by both. -/
theorem finishLine (abreast : Abreast draft machine) {before : Machine} {rest : List Token}
    (sameProgram : machine.program = before.program) (sameRest : machine.rest = before.rest)
    (suffix : rest <:+ before.rest) :
    Level before
      ((machine.program.ending.expectLineEnd rest).map (draft, [], ·))
      (machine.finishLine rest) := by
  unfold Machine.finishLine
  cases ended : machine.program.ending.expectLineEnd rest with
  | error diagnostic => exact .fault
  | ok last =>
      have behind := (Grammar.newline_of_expectLineEnd ended).passes.suffix
      have moved : Abreast draft { machine with rest := last } :=
        ⟨abreast.names, abreast.outside, abreast.noJumps,
          abreast.completes.suffix (sameRest ▸ behind.trans suffix)⟩
      refine .next ?_ ?_ moved
      · exact sameProgram
      · exact behind.trans suffix

end Abreast

namespace CProgram

variable {draft : Draft} {machine : Machine}

/-- A line of the C program up to its end, outside of every block. -/
def ended (ending : Ending) (written : Except Diagnostic (Draft × List Token)) :
    Except Diagnostic (Draft × List Block × List Token) :=
  match written with
  | .error diagnostic => .error diagnostic
  | .ok (draft, rest) => (ending.expectLineEnd rest).map (draft, [], ·)

private theorem level_printLine (precision : Int) (abreast : Abreast draft machine) {token : Token}
    {tokens : List Token} (front : machine.rest = token :: tokens) :
    Level machine
      (ended machine.program.ending (printLine precision machine.program.ending draft tokens))
      (machine.printLine tokens) := by
  have tail : tokens <:+ machine.rest := front ▸ List.suffix_cons token tokens
  have alike := Formula.expression_alike abreast.sameNames machine.program.ending tokens
  unfold printLine
  split
  · next content text line rest =>
    have behind := (List.suffix_cons _ rest).trans tail
    exact ((abreast.print content).writeLine _).finishLine rfl rfl behind
  · next noString =>
    rw [Machine.printLine.eq_2 machine tokens noString]
    cases read : Formula.expression draft.meaning machine.program.ending tokens with
    | error diagnostic =>
        rw [Formula.eq_error_of_alike alike read]
        exact .fault
    | ok result =>
        obtain ⟨formula, rest⟩ := result
        obtain ⟨value, read'⟩ := Formula.exists_ok_of_alike alike read
        obtain ⟨tree, derived⟩ := Formula.exists_sum_of_expression read
        have behind := derived.passes.suffix.trans tail
        rw [read']
        exact ((abreast.print (Number.written value.value)).writeLine _).finishLine rfl rfl behind

private theorem level_letLine (abreast : Abreast draft machine) {token : Token}
    {tokens : List Token}
    (front : machine.rest = token :: tokens) :
    Level machine
      (ended machine.program.ending (letLine machine.program.ending draft tokens))
      (machine.letLine tokens) := by
  unfold letLine Machine.letLine
  cases named : machine.program.ending.expectName tokens with
  | error diagnostic => exact .fault
  | ok result =>
      obtain ⟨name, line, rest⟩ := result
      obtain ⟨text, rfl⟩ := Ending.exists_identifier_of_expectName named
      have declared := abreast.declare name (Abreast.isSome_get?_declare machine.symbols name)
      simp only
      cases assigned : machine.program.ending.expect .assign rest with
      | error diagnostic => exact .fault
      | ok rest' =>
          obtain ⟨text', line', rfl⟩ := Ending.exists_assign_of_expect assigned
          have alike :=
            Formula.expression_alike declared.sameNames machine.program.ending rest'
          simp only
          cases read : Formula.expression (draft.declare name).meaning machine.program.ending
              rest' with
          | error diagnostic =>
              rw [Formula.eq_error_of_alike alike read]
              exact .fault
          | ok result =>
              obtain ⟨formula, last⟩ := result
              obtain ⟨value, read'⟩ := Formula.exists_ok_of_alike alike read
              obtain ⟨tree, derived⟩ := Formula.exists_sum_of_expression read
              have behind : last <:+ machine.rest := by
                rw [front]
                exact derived.passes.suffix.trans
                  (((List.suffix_cons _ _).trans (List.suffix_cons _ _)).trans
                    (List.suffix_cons _ _))
              have known : ((machine.symbols.declare name).get? name).isSome := by
                rw [Abreast.isSome_get?_declare]
                simp
              rw [read']
              exact ((declared.assign known value.value).writeLine _).finishLine rfl rfl behind

private theorem level_inputLine (abreast : Abreast draft machine) {token : Token}
    {tokens : List Token}
    (front : machine.rest = token :: tokens) :
    Level machine
      (ended machine.program.ending (inputLine machine.program.ending draft tokens))
      (machine.inputLine tokens) := by
  unfold inputLine Machine.inputLine
  cases named : machine.program.ending.expectName tokens with
  | error diagnostic => exact .fault
  | ok result =>
      obtain ⟨name, line, rest⟩ := result
      obtain ⟨text, rfl⟩ := Ending.exists_identifier_of_expectName named
      have declared := abreast.declare name
        (Abreast.isSome_get?_set machine.symbols name ·
          (Number.entered (Text.firstLine machine.input)))
      have behind : rest <:+ machine.rest := by
        rw [front]
        exact (List.suffix_cons _ _).trans (List.suffix_cons _ _)
      have read : Abreast (draft.declare name) (machine.inputTo name) :=
        ⟨declared.names, declared.outside, declared.noJumps, declared.completes⟩
      exact ((((read.writeLine _).writeLine _).writeLine _).writeLine _).finishLine rfl rfl behind

private theorem level_labelLine (abreast : Abreast draft machine) {text : String} {line : Int}
    {tokens : List Token}
    (front : machine.rest = ⟨.keyword .labelWord, text, line⟩ :: tokens) :
    Level machine
      (ended machine.program.ending (labelLine machine.program.ending draft tokens))
      (machine.labelLine tokens) := by
  unfold labelLine Machine.labelLine
  cases named : machine.program.ending.expectName tokens with
  | error diagnostic => exact .fault
  | ok result =>
      obtain ⟨name, line', rest⟩ := result
      obtain ⟨text', rfl⟩ := Ending.exists_identifier_of_expectName named
      have completes := abreast.completes
      rw [front] at completes
      obtain ⟨fresh, further⟩ := completes.label
      have reachable : machine.program.ending.reachable rest = .ok () := rfl
      have new : draft.labels.contains name = false := by simpa using fresh
      simp only [reachable, new, Bool.false_eq_true, if_false]
      -- the labels grow, so the table is completed by what is behind the name only
      unfold Machine.finishLine ended
      simp only
      cases lineEnd : machine.program.ending.expectLineEnd rest with
      | error diagnostic => exact .fault
      | ok last =>
          have behind := (Grammar.newline_of_expectLineEnd lineEnd).passes.suffix
          have moved : Abreast
              ({ draft with labels := name :: draft.labels }.writeLine (name ++ ":;"))
              { machine with rest := last } :=
            ⟨abreast.names, abreast.outside, abreast.noJumps, further.suffix behind⟩
          have within : last <:+ machine.rest := by
            rw [front]
            exact behind.trans ((List.suffix_cons _ _).trans (List.suffix_cons _ _))
          refine .next ?_ ?_ moved
          · rfl
          · exact within

theorem wholeLine_eq_ended {precision : Int} {ending : Ending} {token : Token} {tokens : List Token}
    {written : Except Diagnostic (Draft × List Token)}
    (same : line precision ending draft [] token tokens = inside [] written) :
    wholeLine precision ending draft [] token tokens = ended ending written := by
  unfold wholeLine
  rw [same]
  cases written with
  | error diagnostic => rfl
  | ok result =>
      obtain ⟨next, rest⟩ := result
      simp only [inside, ended]
      cases ending.expectLineEnd rest <;> rfl

/-- Where no block is opened and no jump stands, both walks take the line or refuse it alike. -/
theorem level_line (precision : Int) (abreast : Abreast draft machine) {token : Token}
    {tokens : List Token} (front : machine.rest = token :: tokens)
    (straight : ∀ block : Block, token.kind ≠ .keyword block.opener)
    (noJump : token.kind ≠ .keyword .gotoWord) :
    Level machine
      (wholeLine precision machine.program.ending draft [] token tokens)
      (machine.line token tokens) := by
  obtain ⟨lexeme, text, line'⟩ := token
  cases lexeme with
  | keyword word =>
      cases word with
      | printWord =>
          rw [wholeLine_eq_ended rfl]
          exact level_printLine precision abreast front
      | letWord =>
          rw [wholeLine_eq_ended rfl]
          exact level_letLine abreast front
      | inputWord =>
          rw [wholeLine_eq_ended rfl]
          exact level_inputLine abreast front
      | labelWord =>
          rw [wholeLine_eq_ended rfl]
          exact level_labelLine abreast front
      | ifWord => exact absurd rfl (straight .conditional)
      | whileWord => exact absurd rfl (straight .loop)
      | gotoWord => exact absurd rfl noJump
      | _ => exact .fault
  | _ => exact .fault

end CProgram

/-- What a program is refused for, if it could not be put into C. -/
def CProgram.refusal? : Except Diagnostic String → Option Diagnostic
  | .ok _ => none
  | .error diagnostic => some diagnostic

private theorem CProgram.exists_finish_of_noJumps {draft : Draft} (noJumps : draft.jumps = []) :
    ∃ code, finish draft = .ok code := by
  unfold finish
  simp only [firstDangling?, Draft.writeLine, noJumps, List.find?_nil]
  exact ⟨_, rfl⟩

namespace Machine

/-- A run has one end, whatever the budget. -/
theorem run?_unique {machine : Machine} {budget budget' : Nat} {first second : Stopped}
    (ended : machine.run? budget = some first) (ended' : machine.run? budget' = some second) :
    first = second := by
  induction budget generalizing machine budget' with
  | zero => simp [run?] at ended
  | succ budget induction =>
      cases budget' with
      | zero => simp [run?] at ended'
      | succ budget' =>
          simp only [run?] at ended ended'
          cases taken : machine.step with
          | next next =>
              rw [taken] at ended ended'
              exact induction ended ended'
          | halt last | fault last diagnostic =>
              rw [taken, Option.some.injEq] at ended ended'
              exact ended.symm.trans ended'

/-- A machine stops with the fault that the C program is refused for, or with none. -/
def StopsAs (machine : Machine) (result : Except Diagnostic String) : Prop :=
  ∃ budget last, machine.run? budget = some ⟨last, CProgram.refusal? result⟩

theorem StopsAs.step {machine next : Machine} {result : Except Diagnostic String}
    (taken : machine.step = .next next) (stops : next.StopsAs result) : machine.StopsAs result := by
  obtain ⟨budget, last, ended⟩ := stops
  refine ⟨budget + 1, last, ?_⟩
  rw [run?, taken]
  exact ended

/-- Two walks that are abreast come to their end together. -/
theorem stopsAs_lines (precision : Int) {draft : Draft} {machine : Machine}
    (abreast : Abreast draft machine)
    (plain : ∀ token ∈ machine.rest, token.kind ≠ .eof ∧ token.kind ≠ .keyword .gotoWord ∧
      ∀ block : Block, token.kind ≠ .keyword block.opener) :
    machine.StopsAs
      (CProgram.lines precision machine.program.ending draft [] machine.rest) := by
  generalize size : machine.rest.length = count
  induction count using Nat.strongRecOn generalizing draft machine with
  | ind count induction =>
      have outside := abreast.outside
      cases front : machine.rest with
      | nil =>
          obtain ⟨code, finished⟩ := CProgram.exists_finish_of_noJumps abreast.noJumps
          have halts : machine.step = .halt machine := by
            simp only [step, front, outside]
          refine ⟨1, machine, ?_⟩
          simp only [run?, halts, CProgram.lines, Program.ending, List.isEmpty_nil, if_true,
            finished, CProgram.refusal?]
      | cons token tokens =>
          obtain ⟨inside, noJump, straight⟩ := plain token (front ▸ List.mem_cons_self)
          have taken : machine.step = machine.line token tokens := by
            simp only [step, front, outside, inside, if_false]
          have level := CProgram.level_line precision abreast front straight noJump
          rw [CProgram.lines_cons]
          generalize written : CProgram.wholeLine precision machine.program.ending draft [] token
            tokens = result at level
          generalize done : machine.line token tokens = outcome at level
          rw [done] at taken
          cases level with
          | fault => exact ⟨1, _, by rw [run?, taken, CProgram.refusal?]⟩
          | @next draft' machine' sameProgram within abreast' =>
              have shorter : machine'.rest.length < count := by
                have bound := CProgram.length_wholeLine_le written
                rw [← size, front, List.length_cons]
                omega
              have stops := induction _ shorter abreast'
                (fun token member => plain token (within.subset member)) rfl
              rw [sameProgram] at stops
              exact stops.step taken

private theorem abreast_start {program : Program} {lastPlace : Int} (input : List Char)
    (table : Destinations.collect ⟨[], [], lastPlace⟩ [] 0 program.body =
      .ok program.destinations) :
    Abreast Draft.start (start program input) where
  names name := rfl
  outside := rfl
  noJumps := rfl
  completes := by
    have whole : Destinations.Completes [] program.body := ⟨_, _, _, _, table, by simp⟩
    exact whole.suffix (List.dropWhile_suffix _)

end Machine

/-- The end token is not among the tokens in front of it. -/
theorem Lexer.kind_ne_eof_of_mem_scan {cursor : Cursor} {token : Token}
    (member : token ∈ (scan cursor).tokens) : token.kind ≠ .eof := by
  fun_induction scan cursor with
  | case1 => simp at member
  | case2 => simp at member
  | case3 cursor first after read inside following induction =>
      rcases List.mem_cons.mp member with rfl | member
      · exact inside
      · exact induction member

theorem Lexer.exists_eofAt_of_tokens {source : String} {tokens : List Token}
    (tokenized : Lexer.tokens source = .ok tokens) :
    ∃ body last, tokens = body ++ [Token.eofAt last] := by
  obtain ⟨last, -, whole⟩ := Scan.exists_eof_of_complete tokenized
  exact ⟨_, last, whole⟩

theorem CProgram.ofSource_eq_lines {source : String} {body : List Token} {last : Int}
    (tokenized : Lexer.tokens source = .ok (body ++ [Token.eofAt last])) (precision : Int) :
    ofSource precision source =
      lines precision (.eof last) Draft.start [] (body.dropWhile Token.isNewline) := by
  obtain ⟨scanned, ends⟩ := Lexer.scan_of_tokens tokenized
  simp only [ofSource, lookedAt, ends, scanned]

namespace Sample

/-- The second line reads a variable that only a later line assigns. -/
def premature : String :=
  "LABEL a\nLET b=c\nLET c=b"

def prematureTokens : List Token := [
  ⟨.keyword .labelWord, "LABEL", 1⟩, ⟨.identifier "a", "a", 1⟩, ⟨.newline, "\n", 1⟩,
  ⟨.keyword .letWord, "LET", 2⟩, ⟨.identifier "b", "b", 2⟩, ⟨.assign, "=", 2⟩,
  ⟨.identifier "c", "c", 2⟩, ⟨.newline, "\n", 2⟩,
  ⟨.keyword .letWord, "LET", 3⟩, ⟨.identifier "c", "c", 3⟩, ⟨.assign, "=", 3⟩,
  ⟨.identifier "b", "b", 3⟩, ⟨.newline, "\n", 3⟩]

set_option maxRecDepth 10000 in
theorem tokens_premature :
    Lexer.tokens premature = .ok (prematureTokens ++ [Token.eofAt 4]) := by
  cbv

private theorem ofSource_premature (precision : Int) :
    CProgram.ofSource precision premature = .error (.unassignedVariable "c" 2) := by
  rw [CProgram.ofSource_eq_lines tokens_premature]
  exact (CProgram.lines_cons ..).trans (CProgram.lines_cons ..)

end Sample

/-- A program without blocks and jumps whose labels are distinct can be run.  Its run ends, and the
fault that it ends with is the one that the program is refused for when it is put into C; if it is
not refused, the run ends without a fault. -/
theorem Machine.ends_iff_refusal?_eq {source : String} {tokens : List Token}
    {destinations : Destinations} (tokenized : Lexer.tokens source = .ok tokens)
    (straight : ∀ token ∈ tokens, token.kind ≠ .keyword .ifWord ∧
      token.kind ≠ .keyword .whileWord ∧ token.kind ≠ .keyword .gotoWord)
    (table : Destinations.ofTokens tokens = .ok destinations) :
    ∃ program, Program.ofSource source = .ok program ∧
      ∀ precision input fault,
        (∃ budget machine, (start program input).run? budget = some ⟨machine, fault⟩) ↔
          CProgram.refusal? (CProgram.ofSource precision source) = fault := by
  obtain ⟨body, last, rfl⟩ := Lexer.exists_eofAt_of_tokens tokenized
  obtain ⟨scanned, ends⟩ := Lexer.scan_of_tokens tokenized
  have plain : ∀ token ∈ body, token.kind ≠ .eof ∧ token.kind ≠ .keyword .gotoWord ∧
      ∀ block : Block, token.kind ≠ .keyword block.opener := by
    intro token member
    obtain ⟨noIf, noWhile, noGoto⟩ := straight token (List.mem_append_left _ member)
    refine ⟨Lexer.kind_ne_eof_of_mem_scan (scanned ▸ member), noGoto, ?_⟩
    intro block
    cases block with
    | conditional => exact noIf
    | loop => exact noWhile
  have loaded : Program.ofSource source = .ok ⟨body, last, destinations⟩ := by
    rw [Program.ofSource, ends, scanned]
    simp only [Program.assemble, table]
    rfl
  rw [Destinations.ofTokens, Destinations.collect_append_eof] at table
  refine ⟨_, loaded, ?_⟩
  intro precision input fault
  have abreast : Abreast Draft.start (start ⟨body, last, destinations⟩ input) :=
    abreast_start input table
  have stops := stopsAs_lines precision abreast
    (fun token member => plain token ((List.dropWhile_suffix _).subset member))
  obtain ⟨budget, machine, ended⟩ := stops
  rw [CProgram.ofSource_eq_lines tokenized]
  constructor
  · rintro ⟨budget', machine', ended'⟩
    exact congrArg Stopped.fault (run?_unique ended ended')
  · rintro rfl
    exact ⟨budget, machine, ended⟩

/-- The variable that is read too early is the fault that every run ends with. -/
theorem Machine.ends_iff_refusal?_eq_premature :
    ∃ program, Program.ofSource Sample.premature = .ok program ∧
      ∀ input fault,
        (∃ budget machine, (start program input).run? budget = some ⟨machine, fault⟩) ↔
          some (.unassignedVariable "c" 2) = fault := by
  have table : Destinations.ofTokens (Sample.prematureTokens ++ [Token.eofAt 4]) =
      .ok ⟨[], [("a", 0)], 13⟩ := rfl
  obtain ⟨program, loaded, ends⟩ :=
    ends_iff_refusal?_eq Sample.tokens_premature (by decide) table
  refine ⟨program, loaded, ?_⟩
  intro input fault
  have refused := ends 2 input fault
  rw [Sample.ofSource_premature] at refused
  exact refused

end TeenyBasic
