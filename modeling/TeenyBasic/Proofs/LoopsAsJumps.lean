import TeenyBasic.Proofs.AcceptedRuns
import TeenyBasic.Proofs.AlikeRuns
import TeenyBasic.Proofs.LinesOfText

/-!
# Loops as jumps

A loop does the same as a label in front of a conditional block that jumps back to it.  The two
programs do not run in step: where the loop goes on with its next round, the other program leaves a
block and starts again from a label.  But the rest of the run from there on is the same, and that is
what the proof carries along (`runsToEnd_unrolled_of_runs`, `runsToEnd_loop_of_runs`).
-/

namespace TeenyBasic

namespace Statement

@[simp] theorem namingsOf_append (first second : List Statement) :
    namingsOf (first ++ second) = namingsOf first ++ namingsOf second := by
  induction first with
  | nil => rfl
  | cons statement rest induction =>
    rw [List.cons_append, namingsOf, namingsOf, induction, List.append_assoc]

@[simp] theorem nestedLabels_append (first second : List Statement) :
    nestedLabels (first ++ second) = nestedLabels first ++ nestedLabels second := by
  induction first with
  | nil => rfl
  | cons statement rest induction =>
    cases statement with
    | block kind condition body =>
      rw [List.cons_append, nestedLabels, nestedLabels, induction, List.append_assoc]
    | action _ | label _ _ | goto _ _ => exact induction

theorem fromLabel?_append (name : String) (first second : List Statement) :
    fromLabel? name (first ++ second) =
      ((fromLabel? name first).map (· ++ second)).or (fromLabel? name second) := by
  induction first with
  | nil => rfl
  | cons statement rest induction =>
    cases statement with
    | label other line =>
      by_cases same : other = name
      · simp [fromLabel?, same]
      · simpa [fromLabel?, same] using induction
    | action _ | goto _ _ | block _ _ _ => exact induction

theorem suffix_of_fromLabel? {name : String} {statements there : List Statement}
    (found : fromLabel? name statements = some there) : there <:+ statements := by
  induction statements with
  | nil => simp [fromLabel?] at found
  | cons statement rest induction =>
    cases statement with
    | label other line =>
      by_cases same : other = name
      · simp only [fromLabel?, same, if_true, Option.some.injEq] at found
        subst same found
        exact List.suffix_refl _
      · simp only [fromLabel?, same, if_false] at found
        exact (induction found).trans (List.suffix_cons _ rest)
    | action _ | goto _ _ | block _ _ _ => exact (induction found).trans (List.suffix_cons _ rest)

theorem fromLabel?_eq_none {name : String} {statements : List Statement}
    (undeclared : .declared name ∉ namingsOf statements) : fromLabel? name statements = none := by
  induction statements with
  | nil => rfl
  | cons statement rest induction =>
    rw [namingsOf, List.mem_append, not_or] at undeclared
    cases statement with
    | label other line =>
      have different : other ≠ name := by
        rintro rfl
        exact undeclared.1 (by simp [namings])
      rw [fromLabel?, if_neg different]
      exact induction undeclared.2
    | action _ | goto _ _ | block _ _ _ => exact induction undeclared.2

theorem notMem_namingsOf_append {naming : Naming} {first second : List Statement} :
    naming ∉ namingsOf (first ++ second) ↔
      naming ∉ namingsOf first ∧ naming ∉ namingsOf second := by
  rw [namingsOf_append, List.mem_append, not_or]

theorem notMem_namingsOf_of_suffix {naming : Naming} {part statements : List Statement}
    (absent : naming ∉ namingsOf statements) (suffix : part <:+ statements) :
    naming ∉ namingsOf part := by
  obtain ⟨taken, rfl⟩ := suffix
  exact (notMem_namingsOf_append.mp absent).2

end Statement

section Parts

variable {first second : List Statement} {world middle final : World} {exit : Exit}

/-- Statements that jump or fail do so whatever stands behind them. -/
theorem Runs.append_of_ne (runs : Runs first world exit final) (leaves : exit ≠ .finished) :
    Runs (first ++ second) world exit final := by
  induction runs with
  | nil => exact absurd rfl leaves
  | act done _ induction => exact .act done (induction leaves)
  | actFails done => exact .actFails done
  | label _ induction => exact .label (induction leaves)
  | goto => exact .goto
  | conditionFails fails => exact .conditionFails fails
  | skip unmet _ induction => exact .skip unmet (induction leaves)
  | once met inner _ _ induction => exact .once met inner (induction leaves)
  | again met inner _ _ induction => exact .again met inner (induction leaves)
  | leave met inner left _ => exact .leave met inner left

theorem Runs.append (runs : Runs first world .finished middle)
    (further : Runs second middle exit final) : Runs (first ++ second) world exit final := by
  generalize finished : Exit.finished = ended at runs
  induction runs with
  | nil => exact further
  | act done _ induction => exact .act done (induction further finished)
  | actFails _ => cases finished
  | label _ induction => exact .label (induction further finished)
  | goto => cases finished
  | conditionFails _ => cases finished
  | skip unmet _ induction => exact .skip unmet (induction further finished)
  | once met inner _ _ induction => exact .once met inner (induction further finished)
  | again met inner _ _ induction => exact .again met inner (induction further finished)
  | leave _ _ left _ => exact absurd finished.symm left

/-- The first statements leave, or they finish and the second ones go on. -/
def RunsInParts (first second : List Statement) (world : World) (exit : Exit) (final : World) :
    Prop :=
  exit ≠ .finished ∧ Runs first world exit final ∨
    ∃ middle, Runs first world .finished middle ∧ Runs second middle exit final

theorem runsInParts_of_leaving {statement : Statement} {rest : List Statement}
    (leaves : ∀ rest, Runs (statement :: rest) world exit final) (left : exit ≠ .finished)
    (whole : first ++ second = statement :: rest) : RunsInParts first second world exit final := by
  rcases List.append_eq_cons_iff.mp whole with ⟨rfl, rfl⟩ | ⟨others, rfl, -⟩
  · exact .inr ⟨world, .nil, leaves rest⟩
  · exact .inl ⟨left, leaves others⟩

theorem runsInParts_of_onward {statement : Statement} {rest : List Statement} {next : World}
    (onward : ∀ {rest exit final}, Runs rest next exit final →
      Runs (statement :: rest) world exit final)
    (further : Runs rest next exit final)
    (induction : ∀ {first}, first ++ second = rest → RunsInParts first second next exit final)
    (whole : first ++ second = statement :: rest) : RunsInParts first second world exit final := by
  rcases List.append_eq_cons_iff.mp whole with ⟨rfl, rfl⟩ | ⟨others, rfl, same⟩
  · exact .inr ⟨world, .nil, onward further⟩
  · rcases induction same.symm with ⟨left, part⟩ | ⟨middle, part, last⟩
    · exact .inl ⟨left, onward part⟩
    · exact .inr ⟨middle, onward part, last⟩

theorem Runs.of_append (runs : Runs (first ++ second) world exit final) :
    RunsInParts first second world exit final := by
  generalize whole : first ++ second = statements at runs
  induction runs generalizing first with
  | nil =>
    obtain ⟨rfl, rfl⟩ := List.append_eq_nil_iff.mp whole
    exact .inr ⟨_, .nil, .nil⟩
  | act done further induction =>
    exact runsInParts_of_onward (.act done) further (fun rest => induction rest) whole
  | actFails done => exact runsInParts_of_leaving (fun _ => .actFails done) (by simp) whole
  | label further induction =>
    exact runsInParts_of_onward .label further (fun rest => induction rest) whole
  | goto => exact runsInParts_of_leaving (fun _ => .goto) (by simp) whole
  | conditionFails fails =>
    exact runsInParts_of_leaving (fun _ => .conditionFails fails) (by simp) whole
  | skip unmet further induction =>
    exact runsInParts_of_onward (.skip unmet) further (fun rest => induction rest) whole
  | once met inner further _ induction =>
    exact runsInParts_of_onward (.once met inner) further (fun rest => induction rest) whole
  | @again condition body rest world after final exit met inner further _ induction =>
    rcases List.append_eq_cons_iff.mp whole with ⟨rfl, rfl⟩ | ⟨others, rfl, -⟩
    · exact .inr ⟨world, .nil, .again met inner further⟩
    · -- the next round begins with the same statements
      rcases induction whole with ⟨left, part⟩ | ⟨middle, part, last⟩
      · exact .inl ⟨left, .again met inner part⟩
      · exact .inr ⟨middle, .again met inner part, last⟩
  | leave met inner left _ =>
    exact runsInParts_of_leaving (fun _ => .leave met inner left) left whole

/-- Only a jump that is written somewhere is made. -/
theorem Runs.jumped_mem {here : List Statement} {name : String}
    (runs : Runs here world (.jumped name) final) :
    .jumped name ∈ Statement.namingsOf here := by
  generalize jumped : Exit.jumped name = ended at runs
  induction runs with
  | nil => cases jumped
  | actFails _ => cases jumped
  | conditionFails _ => cases jumped
  | goto =>
    obtain rfl := Exit.jumped.inj jumped
    simp [Statement.namingsOf, Statement.namings]
  | act _ _ induction | label _ induction | skip _ _ induction =>
    exact List.mem_append_right _ (induction jumped)
  | once _ _ _ _ induction => exact List.mem_append_right _ (induction jumped)
  | again _ _ _ _ induction => exact induction jumped
  | leave _ _ _ induction =>
    exact List.mem_append_left _ (List.mem_append_right _ (induction jumped))

end Parts

/-- What becomes of a program whose statements have come to an exit. -/
inductive Concludes (program : List Statement) : Exit → World → Option Diagnostic → World → Prop
  | finished {world} : Concludes program .finished world none world
  | failed {diagnostic world} : Concludes program (.failed diagnostic) world (some diagnostic) world
  | jumped {name there world fault final} :
      Statement.fromLabel? name program = some there →
      RunsToEnd program there world fault final →
      Concludes program (.jumped name) world fault final

section Rest

variable {program here before : List Statement} {world middle final : World} {exit : Exit}
  {fault : Option Diagnostic}

theorem Concludes.runsToEnd (concludes : Concludes program exit middle fault final)
    (runs : Runs here world exit middle) : RunsToEnd program here world fault final := by
  cases concludes with
  | finished => exact .finished runs
  | failed => exact .failed runs
  | jumped found ends => exact .jumped runs found ends

theorem RunsToEnd.exists_runs (ends : RunsToEnd program here world fault final) :
    ∃ exit middle, Runs here world exit middle ∧ Concludes program exit middle fault final := by
  cases ends with
  | finished runs => exact ⟨_, _, runs, .finished⟩
  | failed runs => exact ⟨_, _, runs, .failed⟩
  | jumped runs found ends => exact ⟨_, _, runs, .jumped found ends⟩

theorem RunsToEnd.behind (ends : RunsToEnd program here middle fault final)
    (runs : Runs before world .finished middle) :
    RunsToEnd program (before ++ here) world fault final := by
  obtain ⟨exit, last, further, concludes⟩ := ends.exists_runs
  exact concludes.runsToEnd (runs.append further)

end Rest

/-- A label in front of a conditional block that jumps back to it. -/
def unrolled (label : String) (condition : Condition) (body : List Statement) : List Statement :=
  [.label label 0, .block .conditional condition (body ++ [.goto label 0])]

section Loop

variable {program after body : List Statement} {label : String} {condition : Condition}
  {world middle final : World} {exit : Exit} {fault : Option Diagnostic}

/-- What a loop does, the unrolled loop does by starting again from its label. -/
theorem runsToEnd_unrolled_of_runs
    (found : Statement.fromLabel? label program = some (unrolled label condition body ++ after))
    (runs : Runs (.block .loop condition body :: after) world exit middle)
    (concludes : Concludes program exit middle fault final) :
    RunsToEnd program (unrolled label condition body ++ after) world fault final := by
  generalize loop : Statement.block .loop condition body :: after = here at runs
  -- the induction is on the rounds of the loop
  induction runs with
  | nil | act _ _ _ | actFails _ | label _ _ | goto | once _ _ _ _ _ => cases loop
  | conditionFails fails =>
    cases loop
    exact concludes.runsToEnd (.label (.conditionFails fails))
  | skip unmet further _ =>
    cases loop
    exact concludes.runsToEnd (.label (.skip unmet further))
  | @again _ _ _ world between _ _ met inner _ _ induction =>
    cases loop
    have jumps : Runs (.block .conditional condition (body ++ [.goto label 0]) :: after) world
        (.jumped label) between :=
      .leave met (inner.append .goto) (by simp)
    exact .jumped (.label jumps) found (induction concludes rfl)
  | leave met inner left _ =>
    cases loop
    exact concludes.runsToEnd (.label (.leave met (inner.append_of_ne left) left))

theorem RunsToEnd.again
    (ends : RunsToEnd program (.block .loop condition body :: after) middle fault final)
    (met : condition.isMet world.symbols = .ok true) (inner : Runs body world .finished middle) :
    RunsToEnd program (.block .loop condition body :: after) world fault final := by
  obtain ⟨exit, last, further, concludes⟩ := ends.exists_runs
  exact concludes.runsToEnd (.again met inner further)

/-- What an unrolled loop does up to its exit, the loop does too; it need not leave for its next
round. -/
theorem runsToEnd_loop_of_runs (unusedBody : .jumped label ∉ Statement.namingsOf body)
    (unusedAfter : .jumped label ∉ Statement.namingsOf after)
    (runs : Runs (unrolled label condition body ++ after) world exit middle)
    (restarts : exit = .jumped label →
      RunsToEnd program (.block .loop condition body :: after) middle fault final)
    (concludes : exit ≠ .jumped label → Concludes program exit middle fault final) :
    RunsToEnd program (.block .loop condition body :: after) world fault final := by
  cases runs with
  | label conditional =>
  cases conditional with
  | conditionFails fails => exact (concludes (by simp)).runsToEnd (.conditionFails fails)
  | skip unmet further =>
    have other : exit ≠ .jumped label := by
      rintro rfl
      exact unusedAfter further.jumped_mem
    exact (concludes other).runsToEnd (.skip unmet further)
  | once met inner further =>
    -- the body ends with a jump
    rcases inner.of_append with ⟨left, -⟩ | ⟨between, -, last⟩
    · exact absurd rfl left
    · cases last
  | leave met inner left =>
    rcases inner.of_append with ⟨-, part⟩ | ⟨between, part, last⟩
    · have other : exit ≠ .jumped label := by
        rintro rfl
        exact unusedBody part.jumped_mem
      exact (concludes other).runsToEnd (.leave met part left)
    · cases last with
      | goto => exact (restarts rfl).again met part

end Loop

section Programs

open Statement (fromLabel? namingsOf)

variable {before after body here here' : List Statement} {label : String} {condition : Condition}
  {world final : World} {fault : Option Diagnostic}

/-- Places in a program with a loop and in the one with the unrolled loop: both in front of the
loop, or both behind it. -/
inductive Beside (label : String) (condition : Condition) (body before after : List Statement) :
    List Statement → List Statement → Prop
  | front {statements} : statements <:+ before →
      Beside label condition body before after (statements ++ .block .loop condition body :: after)
        (statements ++ (unrolled label condition body ++ after))
  | back {statements} : statements <:+ after →
      Beside label condition body before after statements statements

/-- Other labels stand beside each other, or in neither program. -/
theorem fromLabel?_beside {name : String} (other : name ≠ label) :
    fromLabel? name (before ++ .block .loop condition body :: after) = none ∧
        fromLabel? name (before ++ (unrolled label condition body ++ after)) = none ∨
      ∃ there there',
        fromLabel? name (before ++ .block .loop condition body :: after) = some there ∧
        fromLabel? name (before ++ (unrolled label condition body ++ after)) = some there' ∧
        Beside label condition body before after there there' := by
  have behind : fromLabel? name (.block .loop condition body :: after) =
      fromLabel? name after := rfl
  have behind' : fromLabel? name (unrolled label condition body ++ after) =
      fromLabel? name after := by
    simp [unrolled, fromLabel?, other.symm]
  rw [Statement.fromLabel?_append, Statement.fromLabel?_append, behind, behind']
  cases inside : fromLabel? name before with
  | some there =>
    exact .inr ⟨_, _, rfl, rfl, .front (Statement.suffix_of_fromLabel? inside)⟩
  | none =>
    cases found : fromLabel? name after with
    | none => exact .inl ⟨rfl, rfl⟩
    | some there =>
      exact .inr ⟨there, there, rfl, rfl, .back (Statement.suffix_of_fromLabel? found)⟩

theorem fromLabel?_unrolled (undeclared : .declared label ∉ namingsOf before) :
    fromLabel? label (before ++ (unrolled label condition body ++ after)) =
      some (unrolled label condition body ++ after) := by
  rw [Statement.fromLabel?_append, Statement.fromLabel?_eq_none undeclared]
  simp [unrolled, fromLabel?]

theorem Beside.runsToEnd_unrolled {exit : Exit} {middle : World}
    (beside : Beside label condition body before after here here')
    (undeclared : .declared label ∉ namingsOf before) (runs : Runs here world exit middle)
    (concludes : Concludes (before ++ (unrolled label condition body ++ after)) exit middle fault
      final) :
    RunsToEnd (before ++ (unrolled label condition body ++ after)) here' world fault final := by
  cases beside with
  | back _ => exact concludes.runsToEnd runs
  | front _ =>
    rcases runs.of_append with ⟨left, part⟩ | ⟨between, part, loop⟩
    · exact concludes.runsToEnd (part.append_of_ne left)
    · exact (runsToEnd_unrolled_of_runs (fromLabel?_unrolled undeclared) loop concludes).behind part

/-- Every end of the program with the loop is one of the program with the unrolled loop. -/
theorem RunsToEnd.unroll
    (ends : RunsToEnd (before ++ .block .loop condition body :: after) here world fault final)
    (undeclared : .declared label ∉ namingsOf (before ++ .block .loop condition body :: after))
    (beside : Beside label condition body before after here here') :
    RunsToEnd (before ++ (unrolled label condition body ++ after)) here' world fault final := by
  have undeclaredBefore := (Statement.notMem_namingsOf_append.mp undeclared).1
  induction ends generalizing here' with
  | finished runs => exact beside.runsToEnd_unrolled undeclaredBefore runs .finished
  | failed runs => exact beside.runsToEnd_unrolled undeclaredBefore runs .failed
  | @jumped _ there _ _ _ _ name runs found _ induction =>
    have other : name ≠ label := by
      rintro rfl
      rw [Statement.fromLabel?_eq_none undeclared] at found
      cases found
    rcases @fromLabel?_beside before after body label condition name other with
      ⟨absent, -⟩ | ⟨_, there', found', foundBeside, besideThere⟩
    · rw [absent] at found
      cases found
    · obtain rfl := Option.some.inj (found'.symm.trans found)
      exact beside.runsToEnd_unrolled undeclaredBefore runs
        (.jumped foundBeside (induction besideThere))

theorem Beside.runsToEnd_loop {exit : Exit} {middle : World}
    (beside : Beside label condition body before after here here')
    (unused : .jumped label ∉ namingsOf (before ++ .block .loop condition body :: after))
    (runs : Runs here' world exit middle)
    (restarts : exit = .jumped label →
      RunsToEnd (before ++ .block .loop condition body :: after)
        (.block .loop condition body :: after) middle fault final)
    (concludes : exit ≠ .jumped label →
      Concludes (before ++ .block .loop condition body :: after) exit middle fault final) :
    RunsToEnd (before ++ .block .loop condition body :: after) here world fault final := by
  rw [Statement.namingsOf_append, namingsOf, Statement.namings] at unused
  simp only [List.mem_append, not_or] at unused
  obtain ⟨unusedBefore, ⟨-, unusedBody⟩, unusedAfter⟩ := unused
  cases beside with
  | back suffix =>
    have other : exit ≠ .jumped label := by
      rintro rfl
      exact Statement.notMem_namingsOf_of_suffix unusedAfter suffix runs.jumped_mem
    exact (concludes other).runsToEnd runs
  | front suffix =>
    rcases runs.of_append with ⟨left, part⟩ | ⟨between, part, further⟩
    · have other : exit ≠ .jumped label := by
        rintro rfl
        exact Statement.notMem_namingsOf_of_suffix unusedBefore suffix part.jumped_mem
      exact (concludes other).runsToEnd (part.append_of_ne left)
    · exact (runsToEnd_loop_of_runs unusedBody unusedAfter further restarts concludes).behind part

/-- Every end of the program with the unrolled loop is one of the program with the loop. -/
theorem RunsToEnd.roll
    (ends : RunsToEnd (before ++ (unrolled label condition body ++ after)) here' world fault final)
    (undeclared : .declared label ∉ namingsOf before)
    (unused : .jumped label ∉ namingsOf (before ++ .block .loop condition body :: after))
    (beside : Beside label condition body before after here here') :
    RunsToEnd (before ++ .block .loop condition body :: after) here world fault final := by
  induction ends generalizing here with
  | finished runs => exact beside.runsToEnd_loop unused runs (by simp) fun _ => .finished
  | failed runs => exact beside.runsToEnd_loop unused runs (by simp) fun _ => .failed
  | @jumped _ there' _ _ _ _ name runs found _ induction =>
    refine beside.runsToEnd_loop unused runs ?_ ?_
    · intro same
      obtain rfl := Exit.jumped.inj same
      rw [fromLabel?_unrolled undeclared] at found
      obtain rfl := Option.some.inj found
      exact induction (.front (List.nil_suffix))
    · intro different
      have other : name ≠ label := fun same => different (by rw [same])
      rcases @fromLabel?_beside before after body label condition name other with
        ⟨-, absent⟩ | ⟨there, _, foundBeside, found', besideThere⟩
      · rw [absent] at found
        cases found
      · obtain rfl := Option.some.inj (found'.symm.trans found)
        exact .jumped foundBeside (induction besideThere)

private theorem runsToEnd_unrolled_iff
    (undeclared : .declared label ∉ namingsOf (before ++ .block .loop condition body :: after))
    (unused : .jumped label ∉ namingsOf (before ++ .block .loop condition body :: after)) :
    RunsToEnd (before ++ .block .loop condition body :: after)
        (before ++ .block .loop condition body :: after) world fault final ↔
      RunsToEnd (before ++ (unrolled label condition body ++ after))
        (before ++ (unrolled label condition body ++ after)) world fault final := by
  have start : Beside label condition body before after
      (before ++ .block .loop condition body :: after)
      (before ++ (unrolled label condition body ++ after)) := .front (List.suffix_refl before)
  have undeclaredBefore := (Statement.notMem_namingsOf_append.mp undeclared).1
  exact ⟨fun ends => ends.unroll undeclared start,
    fun ends => ends.roll undeclaredBefore unused start⟩

end Programs

namespace Naming

/-- What is in order behind some names is in order behind others, if these assign no fewer variables
and declare none of the labels that follow. -/
theorem Lawful.change {before before' namings : List Naming} (lawful : Lawful before namings)
    (assigned : ∀ name, .assigned name ∈ before → .assigned name ∈ before')
    (declared : ∀ name, .declared name ∈ before' → .declared name ∈ before ∨
      .declared name ∉ namings) :
    Lawful before' namings := by
  rw [lawful_iff] at lawful ⊢
  intro first naming last split
  have allowed := lawful first naming last split
  cases naming with
  | read name =>
    rcases List.mem_append.mp allowed with known | recent
    · exact List.mem_append_left _ (assigned name known)
    · exact List.mem_append_right _ recent
  | declared name =>
    intro again
    rcases List.mem_append.mp again with known | recent
    · rcases declared name known with earlier | absent
      · exact allowed (List.mem_append_left _ earlier)
      · exact absent (by simp [split])
    · exact allowed (List.mem_append_right _ recent)
  | assigned name => trivial
  | jumped name => trivial

end Naming

section Names

open Statement (namingsOf namings)

variable {before after body : List Statement} {label : String} {condition : Condition}

theorem namingsOf_loop :
    namingsOf (before ++ .block .loop condition body :: after) =
      namingsOf before ++ ((condition.namings ++ namingsOf body) ++ namingsOf after) := by
  rw [Statement.namingsOf_append, namingsOf, namings]

theorem namingsOf_unrolled :
    namingsOf (before ++ (unrolled label condition body ++ after)) =
      namingsOf before ++ (([.declared label] ++ (condition.namings ++ namingsOf body) ++
        [.jumped label]) ++ namingsOf after) := by
  rw [Statement.namingsOf_append, Statement.namingsOf_append]
  simp [unrolled, namingsOf, namings, Statement.namingsOf_append]

private theorem lawful_unrolled
    (undeclared : .declared label ∉ namingsOf (before ++ .block .loop condition body :: after))
    (lawful : Naming.Lawful [] (namingsOf (before ++ .block .loop condition body :: after))) :
    Naming.Lawful [] (namingsOf (before ++ (unrolled label condition body ++ after))) := by
  rw [namingsOf_loop] at undeclared lawful
  simp only [List.mem_append, not_or] at undeclared
  obtain ⟨undeclaredBefore, ⟨undeclaredCondition, undeclaredBody⟩, undeclaredAfter⟩ := undeclared
  rw [Naming.lawful_append, Naming.lawful_append] at lawful
  obtain ⟨lawfulBefore, lawfulLoop, lawfulAfter⟩ := lawful
  rw [namingsOf_unrolled]
  simp only [Naming.lawful_append, Naming.lawful_singleton]
  refine ⟨lawfulBefore, ⟨⟨?_, ?_⟩, trivial⟩, ?_⟩
  · simpa [Naming.Allowed] using undeclaredBefore
  · have inside : Naming.Lawful ([] ++ namingsOf before ++ [.declared label])
        (condition.namings ++ namingsOf body) := by
      apply lawfulLoop.change
      · intro name member
        exact List.mem_append_left _ member
      · intro name member
        rcases List.mem_append.mp member with earlier | recent
        · exact .inl earlier
        · obtain rfl : name = label := by simpa using recent
          exact .inr (by simp [undeclaredCondition, undeclaredBody])
    exact Naming.lawful_append.mp inside
  · apply lawfulAfter.change
    · intro name member
      simp only [List.mem_append] at member ⊢
      grind
    · intro name member
      by_cases same : name = label
      · exact .inr (same ▸ undeclaredAfter)
      · left
        simp only [List.mem_append] at member ⊢
        simpa [same] using member

private theorem jumpsDeclared_unrolled
    (declared : Naming.JumpsDeclared (namingsOf (before ++ .block .loop condition body :: after))) :
    Naming.JumpsDeclared (namingsOf (before ++ (unrolled label condition body ++ after))) := by
  intro name
  have known := declared name
  rw [namingsOf_loop] at known
  rw [namingsOf_unrolled]
  simp only [List.mem_append, List.mem_singleton, Naming.jumped.injEq, Naming.declared.injEq,
    reduceCtorEq, false_or, or_false] at known ⊢
  grind

private theorem nestedLabels_unrolled
    (plain : Statement.nestedLabels (before ++ .block .loop condition body :: after) = []) :
    Statement.nestedLabels (before ++ (unrolled label condition body ++ after)) = [] := by
  rw [Statement.nestedLabels_append, Statement.nestedLabels, List.append_eq_nil_iff,
    List.append_eq_nil_iff] at plain
  obtain ⟨plainBefore, plainBody, plainAfter⟩ := plain
  have plainJump : Statement.labelsOf (body ++ [.goto label 0]) = [] := by
    rw [Statement.labelsOf, Statement.namingsOf_append, List.filterMap_append]
    exact List.append_eq_nil_iff.mpr ⟨plainBody, rfl⟩
  rw [Statement.nestedLabels_append, Statement.nestedLabels_append, plainBefore, plainAfter]
  simp [unrolled, Statement.nestedLabels, plainJump]

end Names

/-- The text is one line without a comment, and its tokens are a comparison. -/
structure ConditionText (text : String) (condition : Condition) : Prop where
  oneLine : '\n' ∉ text.toList
  plain : '#' ∉ text.toList
  derived : ∃ taken, Lexer.tokens text = .ok (taken ++ [⟨.newline, "\n", 1⟩, Token.eofAt 2]) ∧
    Grammar.Comparison taken condition []

def loopText (before condition body after : String) : String :=
  before ++ "WHILE " ++ condition ++ " REPEAT\n" ++ body ++ "ENDWHILE\n" ++ after

def jumpText (label before condition body after : String) : String :=
  before ++ "LABEL " ++ label ++ "\nIF " ++ condition ++ " THEN\n" ++ body ++ "GOTO " ++ label ++
    "\nENDIF\n" ++ after

section Texts

open Lexical (Spelled)

variable {before condition body after label : String} {treeCondition : Condition}
  {treeBefore treeBody treeAfter : List Statement}

theorem ConditionText.exists_compares (line : ConditionText condition treeCondition) :
    ∃ lexemes, Grammar.Compares lexemes treeCondition ∧ ∀ more others, Spelled more others →
      Spelled (condition.toList ++ ' ' :: more) (lexemes ++ others) := by
  obtain ⟨taken, tokenized, derived⟩ := line.derived
  have whole : taken ++ [⟨.newline, "\n", 1⟩, Token.eofAt 2] =
      (taken ++ [⟨.newline, "\n", 1⟩]) ++ [Token.eofAt 2] := by simp
  rw [whole] at tokenized
  have spelled := Lexical.spelled_of_tokens tokenized
  obtain ⟨lexemes, same, continues⟩ := spelled.continued line.oneLine line.plain
  rw [List.map_append] at same
  obtain rfl := List.append_cancel_right same
  exact ⟨_, derived.compares, continues⟩

theorem exists_sourceTree_loopText (front : WholeLines before treeBefore)
    (compared : ConditionText condition treeCondition) (inner : WholeLines body treeBody)
    (back : WholeLines after treeAfter) :
    ∃ tree, SourceTree (loopText before condition body after) tree ∧
      Statement.AllAlike tree
        (treeBefore ++ .block .loop treeCondition treeBody :: treeAfter) := by
  obtain ⟨blank, lexemes, spelled, tells⟩ := front.exists_spelled
  obtain ⟨comparison, compares, continues⟩ := compared.exists_compares
  obtain ⟨blank', lexemes', spelled', tells'⟩ := inner.exists_spelled
  obtain ⟨blank'', lexemes'', spelled'', tells''⟩ := back.exists_spelled_newline
  have closed := spelled''.lexeme_newline (.keyword .endwhileWord)
  have filled := (spelled'.append inner.endsLine closed).lexeme_newline (.keyword .repeatWord)
  have opened := (continues _ _ filled).lexeme_blank (.keyword .whileWord)
  have whole := spelled.append front.endsLine opened
  have tellsWhole :=
    tells.append ((compares.tells_block tells' .loop blank' blank'').append tells'')
  refine @exists_sourceTree_of_spelled _ _ blank _ ?_ tellsWhole
  simpa [loopText, Keyword.text, Block.opener, Block.separator, Block.closer] using whole

private theorem exists_sourceTree_jumpText (front : WholeLines before treeBefore)
    (compared : ConditionText condition treeCondition) (inner : WholeLines body treeBody)
    (back : WholeLines after treeAfter)
    (named : Lexical.Written (.identifier label) label label.toList) :
    ∃ tree, SourceTree (jumpText label before condition body after) tree ∧
      Statement.AllAlike tree
        (treeBefore ++ (unrolled label treeCondition treeBody ++ treeAfter)) := by
  obtain ⟨blank, lexemes, spelled, tells⟩ := front.exists_spelled
  obtain ⟨comparison, compares, continues⟩ := compared.exists_compares
  obtain ⟨blank', lexemes', spelled', tells'⟩ := inner.exists_spelled
  obtain ⟨blank'', lexemes'', spelled'', tells''⟩ := back.exists_spelled_newline
  have closed := spelled''.lexeme_newline (.keyword .endifWord)
  have jumps := (closed.lexeme_newline named).lexeme_blank (.keyword .gotoWord)
  have filled := (spelled'.append inner.endsLine jumps).lexeme_newline (.keyword .thenWord)
  have opened := (continues _ _ filled).lexeme_blank (.keyword .ifWord)
  have labelled := (opened.lexeme_newline named).lexeme_blank (.keyword .labelWord)
  have whole := spelled.append front.endsLine labelled
  have tellsBlock := compares.tells_block (tells'.append (Grammar.tells_goto label 0)) .conditional
    blank' blank''
  have tellsWhole :=
    tells.append ((Grammar.tells_label label 0).append (tellsBlock.append tells''))
  refine @exists_sourceTree_of_spelled _ _ blank _ ?_ tellsWhole
  simpa [jumpText, Keyword.text, Block.opener, Block.separator, Block.closer] using whole

end Texts

namespace Sample

def waitingBefore : List Statement :=
  [.action (.input "a"), .action (.input "b")]

def waitingCondition : Condition :=
  .compare .less (.read "a" 1) (.read "b" 1)

def waitingBody : List Statement :=
  [.action (.input "a"), .block .conditional (.compare .equal (.read "a" 2) (.read "b" 2))
    [.goto "out" 3]]

def waitingAfter : List Statement :=
  [.label "out" 1, .action (.printValue (.read "a" 2))]

set_option maxRecDepth 10000 in
theorem wholeLines_waitingBefore : WholeLines ("INPUT a\nINPUT b" ++ "\n") waitingBefore := by
  have tokenized : Lexer.tokens "INPUT a\nINPUT b" = .ok ([
      ⟨.keyword .inputWord, "INPUT", 1⟩, ⟨.identifier "a", "a", 1⟩, ⟨.newline, "\n", 1⟩,
      ⟨.keyword .inputWord, "INPUT", 2⟩, ⟨.identifier "b", "b", 2⟩, ⟨.newline, "\n", 2⟩] ++
      [Token.eofAt 3]) := by
    cbv
  exact .lines ⟨_, _, tokenized, .statements (.line .input .one (.line .input .one .none))⟩

set_option maxRecDepth 10000 in
theorem conditionText_waiting : ConditionText " a<b " waitingCondition where
  oneLine := by decide
  plain := by decide
  derived := by
    have tokenized : Lexer.tokens " a<b " = .ok ([
        ⟨.identifier "a", "a", 1⟩, ⟨.relation .less, "<", 1⟩, ⟨.identifier "b", "b", 1⟩] ++
        [⟨.newline, "\n", 1⟩, Token.eofAt 2]) := by
      cbv
    exact ⟨_, tokenized,
      .first (.first (.first (.unsigned .identifier))) (.first (.first (.unsigned .identifier)))⟩

set_option maxRecDepth 10000 in
theorem wholeLines_waitingBody :
    WholeLines ("INPUT a\nIF a==b THEN\nGOTO out\nENDIF" ++ "\n") waitingBody := by
  have tokenized : Lexer.tokens "INPUT a\nIF a==b THEN\nGOTO out\nENDIF" = .ok ([
      ⟨.keyword .inputWord, "INPUT", 1⟩, ⟨.identifier "a", "a", 1⟩, ⟨.newline, "\n", 1⟩,
      ⟨.keyword Block.conditional.opener, "IF", 2⟩, ⟨.identifier "a", "a", 2⟩,
      ⟨.relation .equal, "==", 2⟩, ⟨.identifier "b", "b", 2⟩,
      ⟨.keyword Block.conditional.separator, "THEN", 2⟩, ⟨.newline, "\n", 2⟩,
      ⟨.keyword .gotoWord, "GOTO", 3⟩, ⟨.identifier "out", "out", 3⟩, ⟨.newline, "\n", 3⟩,
      ⟨.keyword Block.conditional.closer, "ENDIF", 4⟩, ⟨.newline, "\n", 4⟩] ++
      [Token.eofAt 5]) := by
    cbv
  exact .lines ⟨_, _, tokenized, .statements (.line .input .one (.block
    (.first (.first (.first (.unsigned .identifier))) (.first (.first (.unsigned .identifier))))
    .one (.line .goto .one .none) .one .none))⟩

set_option maxRecDepth 10000 in
theorem wholeLines_waitingAfter : WholeLines ("LABEL out\nPRINT a" ++ "\n") waitingAfter := by
  have tokenized : Lexer.tokens "LABEL out\nPRINT a" = .ok ([
      ⟨.keyword .labelWord, "LABEL", 1⟩, ⟨.identifier "out", "out", 1⟩, ⟨.newline, "\n", 1⟩,
      ⟨.keyword .printWord, "PRINT", 2⟩, ⟨.identifier "a", "a", 2⟩, ⟨.newline, "\n", 2⟩] ++
      [Token.eofAt 3]) := by
    cbv
  exact .lines ⟨_, _, tokenized, .statements (.line .label .one (.line
    (.printValue (.first (.first (.unsigned .identifier)))) .one .none))⟩

def waitingLoop : String :=
  loopText ("INPUT a\nINPUT b" ++ "\n") " a<b "
    ("INPUT a\nIF a==b THEN\nGOTO out\nENDIF" ++ "\n") ("LABEL out\nPRINT a" ++ "\n")

def waitingJump : String :=
  jumpText "again" ("INPUT a\nINPUT b" ++ "\n") " a<b "
    ("INPUT a\nIF a==b THEN\nGOTO out\nENDIF" ++ "\n") ("LABEL out\nPRINT a" ++ "\n")

private theorem exists_code_waitingLoop (precision : Int) :
    ∃ code, CProgram.ofSource precision waitingLoop = .ok code := by
  obtain ⟨tree, derives, alike⟩ := exists_sourceTree_loopText wholeLines_waitingBefore
    conditionText_waiting wholeLines_waitingBody wholeLines_waitingAfter
  have lawful : Naming.Lawful [] (Statement.namingsOf tree) := by
    rw [alike.namingsOf_eq]
    decide
  have declared : Naming.JumpsDeclared (Statement.namingsOf tree) := by
    rw [alike.namingsOf_eq]
    simp [Naming.JumpsDeclared, waitingBefore, waitingCondition, waitingBody, waitingAfter,
      Statement.namingsOf, Statement.namings, Action.namings, Condition.namings,
      Expression.namings]
  exact ⟨_, CProgram.ofSource_eq_ok derives lawful declared precision⟩

end Sample

/-- A run of the text on the input ends in this world, because of this fault or well. -/
def EndsIn (source : String) (input : List Char) (fault : Option Fault) (world : World) : Prop :=
  ∃ program budget machine diagnostic, Program.ofSource source = .ok program ∧
    (Machine.start program input).run? budget = some ⟨machine, diagnostic⟩ ∧
    machine.world = world ∧ diagnostic.map Diagnostic.fault = fault

/-- The runs of a text are those of every tree that is its own apart from lines. -/
theorem endsIn_iff_runsToEnd {source : String} {tree other : List Statement}
    (derives : SourceTree source tree) (alike : Statement.AllAlike tree other)
    (lawful : Naming.Lawful [] (Statement.namingsOf other))
    (declared : Naming.JumpsDeclared (Statement.namingsOf other))
    (plain : Statement.nestedLabels other = []) :
    (∃ program, Program.ofSource source = .ok program) ∧ ∀ input fault world,
      EndsIn source input fault world ↔
        ∃ diagnostic, RunsToEnd other other (World.start input) diagnostic world ∧
          diagnostic.map Diagnostic.fault = fault := by
  rw [← alike.namingsOf_eq] at lawful declared
  rw [← alike.nestedLabels_eq] at plain
  obtain ⟨program, loaded, shows⟩ := Program.exists_shows derives lawful declared
  refine ⟨⟨program, loaded⟩, ?_⟩
  intro input fault world
  constructor
  · rintro ⟨program', budget, machine, diagnostic, loaded', ran, same, rfl⟩
    obtain rfl := Except.ok.inj (loaded.symm.trans loaded')
    have ends := (Machine.ends_iff_of_shows shows plain diagnostic world).mp
      ⟨budget, machine, ran, same⟩
    exact ends.exists_alike alike alike
  · rintro ⟨diagnostic, ends, rfl⟩
    obtain ⟨diagnostic', ends', sameFault⟩ := ends.exists_alike alike.symm alike.symm
    obtain ⟨budget, machine, ran, same⟩ :=
      (Machine.ends_iff_of_shows shows plain diagnostic' world).mpr ends'
    exact ⟨program, budget, machine, diagnostic', loaded, ran, same, sameFault⟩

/-- A loop in a text can be written as a label and a jump: on every input, the two texts end in the
same world and for the same fault, if they end at all.  The text with the loop must be accepted, no
label may stand inside a block, and the label must be a new one. -/
theorem endsIn_loopText_iff_jumpText {precision : Int}
    {code before condition body after label : String} {treeCondition : Condition}
    {treeBefore treeBody treeAfter : List Statement}
    (front : WholeLines before treeBefore) (compared : ConditionText condition treeCondition)
    (inner : WholeLines body treeBody) (back : WholeLines after treeAfter)
    (accepted : CProgram.ofSource precision (loopText before condition body after) = .ok code)
    (plain : Statement.nestedLabels
      (treeBefore ++ .block .loop treeCondition treeBody :: treeAfter) = [])
    (named : Lexical.Written (.identifier label) label label.toList)
    (fresh : label ∉ Statement.labelsOf
      (treeBefore ++ .block .loop treeCondition treeBody :: treeAfter)) :
    (∃ program, Program.ofSource (loopText before condition body after) = .ok program) ∧
      (∃ program, Program.ofSource (jumpText label before condition body after) = .ok program) ∧
      ∀ input fault world,
        EndsIn (loopText before condition body after) input fault world ↔
          EndsIn (jumpText label before condition body after) input fault world := by
  obtain ⟨tree, derives, alike⟩ := exists_sourceTree_loopText front compared inner back
  obtain ⟨tree', derives', alike'⟩ := exists_sourceTree_jumpText front compared inner back named
  obtain ⟨⟨lawful, declared⟩, -⟩ := CProgram.of_accepted accepted derives
  rw [alike.namingsOf_eq] at lawful declared
  rw [Statement.mem_labelsOf] at fresh
  have unused := mt (declared label) fresh
  obtain ⟨loads, ends⟩ := endsIn_iff_runsToEnd derives alike lawful declared plain
  obtain ⟨loads', ends'⟩ := endsIn_iff_runsToEnd derives' alike' (lawful_unrolled fresh lawful)
    (jumpsDeclared_unrolled declared) (nestedLabels_unrolled plain)
  refine ⟨loads, loads', ?_⟩
  intro input fault world
  rw [ends, ends']
  apply exists_congr
  intro diagnostic
  rw [runsToEnd_unrolled_iff fresh unused]

/-- The body jumps out of the loop from a block inside it. -/
theorem endsIn_loopText_iff_jumpText_waiting :
    (∃ program, Program.ofSource Sample.waitingLoop = .ok program) ∧
      (∃ program, Program.ofSource Sample.waitingJump = .ok program) ∧
      ∀ input fault world, EndsIn Sample.waitingLoop input fault world ↔
        EndsIn Sample.waitingJump input fault world := by
  obtain ⟨code, accepted⟩ := Sample.exists_code_waitingLoop 2
  have named : Lexical.Written (.identifier "again") "again" "again".toList :=
    .identifier (by decide) (List.all_eq_true.mp rfl) (by intro word; cases word <;> decide)
  exact endsIn_loopText_iff_jumpText Sample.wholeLines_waitingBefore
    Sample.conditionText_waiting Sample.wholeLines_waitingBody Sample.wholeLines_waitingAfter
    accepted (by decide) named (by decide)

end TeenyBasic
