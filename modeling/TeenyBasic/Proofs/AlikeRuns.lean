import TeenyBasic.Proofs.BigStep
import TeenyBasic.Proofs.CText
import TeenyBasic.Proofs.GrammarKinds

/-!
# Lines play no part in a run

Trees that differ in their lines only run alike: the worlds are the same, and if one run fails, so
does the other, for the same fault on some other line (`RunsToEnd.exists_alike`).
-/

namespace TeenyBasic

/-- The same outcome without its line. -/
def Exit.unplaced : Exit → Exit
  | .finished => .finished
  | .jumped name => .jumped name
  | .failed diagnostic => .failed ⟨0, diagnostic.fault⟩

theorem Exit.eq_finished {exit : Exit} (same : exit.unplaced = Exit.finished.unplaced) :
    exit = .finished := by
  cases exit with
  | finished => rfl
  | jumped name => cases same
  | failed diagnostic => cases same

section Values

variable {α β : Type} {first second : Except Diagnostic α}

theorem eq_ok_of_mapError {value : α}
    (same : first.mapError Diagnostic.fault = second.mapError Diagnostic.fault)
    (found : first = .ok value) : second = .ok value := by
  subst found
  cases second with
  | ok other => rw [Except.ok.inj same]
  | error diagnostic => cases same

theorem exists_error_of_mapError {diagnostic : Diagnostic}
    (same : first.mapError Diagnostic.fault = second.mapError Diagnostic.fault)
    (found : first = .error diagnostic) :
    ∃ other, second = .error other ∧ other.fault = diagnostic.fault := by
  subst found
  cases second with
  | ok value => cases same
  | error other => exact ⟨other, rfl, (Except.error.inj same).symm⟩

theorem mapError_map (change : α → β)
    (same : first.mapError Diagnostic.fault = second.mapError Diagnostic.fault) :
    (first.map change).mapError Diagnostic.fault =
      (second.map change).mapError Diagnostic.fault := by
  cases found : first with
  | ok value => rw [eq_ok_of_mapError same found]
  | error diagnostic =>
    obtain ⟨other, found', fault⟩ := exists_error_of_mapError same found
    rw [found']
    exact congrArg Except.error fault.symm

end Values

theorem mapError_joinValues {left left' right right' : Except Diagnostic Float}
    (operation : Float → Float → Float)
    (sameLeft : left.mapError Diagnostic.fault = left'.mapError Diagnostic.fault)
    (sameRight : right.mapError Diagnostic.fault = right'.mapError Diagnostic.fault) :
    (joinValues operation left right).mapError Diagnostic.fault =
      (joinValues operation left' right').mapError Diagnostic.fault := by
  cases foundLeft : left with
  | error diagnostic =>
    obtain ⟨other, found', fault⟩ := exists_error_of_mapError sameLeft foundLeft
    rw [found']
    exact congrArg Except.error fault.symm
  | ok value =>
    rw [eq_ok_of_mapError sameLeft foundLeft]
    cases foundRight : right with
    | error diagnostic =>
      obtain ⟨other, found', fault⟩ := exists_error_of_mapError sameRight foundRight
      rw [found']
      exact congrArg Except.error fault.symm
    | ok value' => rw [eq_ok_of_mapError sameRight foundRight]

@[simp] theorem Expression.mapError_value_unplaced (symbols : Symbols) (expression : Expression) :
    (expression.unplaced.value symbols).mapError Diagnostic.fault =
      (expression.value symbols).mapError Diagnostic.fault := by
  induction expression with
  | number value => rfl
  | read name line =>
    simp only [unplaced, value]
    cases symbols.get? name <;> rfl
  | positive operand induction => exact induction
  | negative operand induction => exact mapError_map Float.neg induction
  | binary operator left right leftInduction rightInduction =>
    exact mapError_joinValues operator.apply leftInduction rightInduction

@[simp] theorem Condition.mapError_value_unplaced (symbols : Symbols) (condition : Condition) :
    (condition.unplaced.value symbols).mapError Diagnostic.fault =
      (condition.value symbols).mapError Diagnostic.fault := by
  induction condition with
  | compare relation left right =>
    exact mapError_joinValues _ (left.mapError_value_unplaced symbols)
      (right.mapError_value_unplaced symbols)
  | chain relation left right induction =>
    exact mapError_joinValues _ induction (right.mapError_value_unplaced symbols)

theorem Condition.Alike.isMet {condition other : Condition} (alike : condition.Alike other)
    (symbols : Symbols) :
    (condition.isMet symbols).mapError Diagnostic.fault =
      (other.isMet symbols).mapError Diagnostic.fault := by
  apply mapError_map
  rw [← condition.mapError_value_unplaced, ← other.mapError_value_unplaced]
  unfold Alike at alike
  rw [alike]

theorem Action.perform_unplaced (world : World) (action : Action) :
    (action.unplaced.perform world).1 = (action.perform world).1 ∧
      (action.unplaced.perform world).2.map Diagnostic.fault =
        (action.perform world).2.map Diagnostic.fault := by
  cases action with
  | printText content => exact ⟨rfl, rfl⟩
  | input name => exact ⟨rfl, rfl⟩
  | printValue value =>
    have same := value.mapError_value_unplaced world.symbols
    simp only [unplaced, perform]
    cases found : value.unplaced.value world.symbols with
    | ok number => rw [eq_ok_of_mapError same found]; exact ⟨rfl, rfl⟩
    | error diagnostic =>
      obtain ⟨other, found', fault⟩ := exists_error_of_mapError same found
      rw [found']
      exact ⟨rfl, congrArg some fault.symm⟩
  | assign name value =>
    have same := value.mapError_value_unplaced (world.symbols.declare name)
    simp only [unplaced, perform]
    cases found : value.unplaced.value (world.symbols.declare name) with
    | ok number => rw [eq_ok_of_mapError same found]; exact ⟨rfl, rfl⟩
    | error diagnostic =>
      obtain ⟨other, found', fault⟩ := exists_error_of_mapError same found
      rw [found']
      exact ⟨rfl, congrArg some fault.symm⟩

theorem Action.perform_alike {action other : Action} (alike : action.unplaced = other.unplaced)
    {world after : World} {fault : Option Diagnostic}
    (done : action.perform world = (after, fault)) :
    ∃ fault', other.perform world = (after, fault') ∧
      fault'.map Diagnostic.fault = fault.map Diagnostic.fault := by
  obtain ⟨sameWorld, sameFault⟩ := action.perform_unplaced world
  obtain ⟨sameWorld', sameFault'⟩ := other.perform_unplaced world
  rw [alike] at sameWorld sameFault
  rw [sameWorld, done] at sameWorld'
  rw [sameFault, done] at sameFault'
  exact ⟨(other.perform world).2, Prod.ext sameWorld'.symm rfl, sameFault'.symm⟩

namespace Statement

variable {rest second : List Statement}

theorem AllAlike.exists_cons {statement : Statement} (alike : AllAlike (statement :: rest) second) :
    ∃ statement' rest', second = statement' :: rest' ∧ statement.Alike statement' ∧
      AllAlike rest rest' := by
  cases second with
  | nil => simp [AllAlike, unplacedAll] at alike
  | cons statement' rest' =>
    rw [AllAlike, unplacedAll, unplacedAll, List.cons.injEq] at alike
    exact ⟨statement', rest', rfl, alike⟩

theorem AllAlike.action {action : Action} (alike : AllAlike (.action action :: rest) second) :
    ∃ action' rest', second = .action action' :: rest' ∧ action.unplaced = action'.unplaced ∧
      AllAlike rest rest' := by
  obtain ⟨statement', rest', rfl, first, others⟩ := alike.exists_cons
  cases statement' <;> simp [Alike, unplaced] at first
  exact ⟨_, rest', rfl, first, others⟩

theorem AllAlike.label {name : String} {line : Int}
    (alike : AllAlike (.label name line :: rest) second) :
    ∃ line' rest', second = .label name line' :: rest' ∧ AllAlike rest rest' := by
  obtain ⟨statement', rest', rfl, first, others⟩ := alike.exists_cons
  cases statement' <;> simp [Alike, unplaced] at first
  subst first
  exact ⟨_, rest', rfl, others⟩

theorem AllAlike.goto {name : String} {line : Int}
    (alike : AllAlike (.goto name line :: rest) second) :
    ∃ line' rest', second = .goto name line' :: rest' ∧ AllAlike rest rest' := by
  obtain ⟨statement', rest', rfl, first, others⟩ := alike.exists_cons
  cases statement' <;> simp [Alike, unplaced] at first
  subst first
  exact ⟨_, rest', rfl, others⟩

theorem AllAlike.block {kind : Block} {condition : Condition} {body : List Statement}
    (alike : AllAlike (.block kind condition body :: rest) second) :
    ∃ condition' body' rest', second = .block kind condition' body' :: rest' ∧
      condition.Alike condition' ∧ AllAlike body body' ∧ AllAlike rest rest' := by
  obtain ⟨statement', rest', rfl, first, others⟩ := alike.exists_cons
  cases statement' <;> simp [Alike, unplaced] at first
  obtain ⟨rfl, sameCondition, sameBody⟩ := first
  exact ⟨_, _, rest', rfl, sameCondition, sameBody, others⟩

theorem AllAlike.symm {first : List Statement} (alike : AllAlike first second) :
    AllAlike second first :=
  Eq.symm alike

theorem AllAlike.namingsOf_eq {first : List Statement} (alike : AllAlike first second) :
    namingsOf first = namingsOf second := by
  rw [← namingsOf_unplacedAll first, ← namingsOf_unplacedAll second, alike]

theorem AllAlike.nestedLabels_eq {first : List Statement} (alike : AllAlike first second) :
    nestedLabels first = nestedLabels second := by
  induction first generalizing second with
  | nil =>
    cases second with
    | nil => rfl
    | cons _ _ => simp [AllAlike, unplacedAll] at alike
  | cons statement rest induction =>
    cases statement with
    | action simple =>
      obtain ⟨_, _, rfl, -, others⟩ := alike.action
      have same := induction others
      exact same
    | label name line =>
      obtain ⟨_, _, rfl, others⟩ := alike.label
      have same := induction others
      exact same
    | goto name line =>
      obtain ⟨_, _, rfl, others⟩ := alike.goto
      have same := induction others
      exact same
    | block kind condition body =>
      obtain ⟨_, _, _, rfl, -, inner, others⟩ := alike.block
      rw [nestedLabels, nestedLabels, labelsOf, labelsOf, inner.namingsOf_eq, induction others]

theorem AllAlike.fromLabel? {first there : List Statement} {name : String}
    (alike : AllAlike first second) (found : fromLabel? name first = some there) :
    ∃ there', Statement.fromLabel? name second = some there' ∧ AllAlike there there' := by
  induction first generalizing second with
  | nil => simp [Statement.fromLabel?] at found
  | cons statement rest induction =>
    cases statement with
    | action simple =>
      obtain ⟨_, _, rfl, -, others⟩ := alike.action
      have later := induction others found
      exact later
    | goto other line =>
      obtain ⟨_, _, rfl, others⟩ := alike.goto
      have later := induction others found
      exact later
    | block kind condition body =>
      obtain ⟨_, _, _, rfl, -, -, others⟩ := alike.block
      have later := induction others found
      exact later
    | label other line =>
      have whole := alike
      obtain ⟨line', rest', rfl, others⟩ := alike.label
      by_cases same : other = name
      · simp only [Statement.fromLabel?, same, if_true, Option.some.injEq] at found ⊢
        subst found
        subst same
        exact ⟨_, rfl, whole⟩
      · simp only [Statement.fromLabel?, same, if_false] at found ⊢
        exact induction others found

end Statement

open Statement (AllAlike)

/-- Statements that differ in their lines only run alike. -/
theorem Runs.exists_alike {first second : List Statement} {world final : World} {exit : Exit}
    (runs : Runs first world exit final) (alike : AllAlike first second) :
    ∃ exit', Runs second world exit' final ∧ exit'.unplaced = exit.unplaced := by
  induction runs generalizing second with
  | nil =>
    cases second with
    | nil => exact ⟨.finished, .nil, rfl⟩
    | cons _ _ => simp [AllAlike, Statement.unplacedAll] at alike
  | act done _ induction =>
    obtain ⟨action', rest', rfl, sameAction, others⟩ := alike.action
    obtain ⟨fault, done', without⟩ := Action.perform_alike sameAction done
    obtain rfl : fault = none := by simpa using without
    obtain ⟨exit', runs', same⟩ := induction others
    exact ⟨exit', .act done' runs', same⟩
  | actFails done =>
    obtain ⟨action', rest', rfl, sameAction, -⟩ := alike.action
    obtain ⟨fault, done', failing⟩ := Action.perform_alike sameAction done
    obtain ⟨diagnostic', rfl, same⟩ := Option.map_eq_some_iff.mp failing
    refine ⟨.failed diagnostic', .actFails done', ?_⟩
    rw [Exit.unplaced, Exit.unplaced, same]
  | label _ induction =>
    obtain ⟨line', rest', rfl, others⟩ := alike.label
    obtain ⟨exit', runs', same⟩ := induction others
    exact ⟨exit', .label runs', same⟩
  | @goto name _ _ _ =>
    obtain ⟨line', rest', rfl, -⟩ := alike.goto
    exact ⟨.jumped name, .goto, rfl⟩
  | @conditionFails _ _ _ _ world _ fails =>
    obtain ⟨condition', body', rest', rfl, sameCondition, -, -⟩ := alike.block
    obtain ⟨diagnostic', fails', same⟩ :=
      exists_error_of_mapError (sameCondition.isMet world.symbols) fails
    refine ⟨.failed diagnostic', .conditionFails fails', ?_⟩
    rw [Exit.unplaced, Exit.unplaced, same]
  | @skip _ _ _ _ world _ _ unmet _ induction =>
    obtain ⟨condition', body', rest', rfl, sameCondition, -, others⟩ := alike.block
    obtain ⟨exit', runs', same⟩ := induction others
    exact ⟨exit', .skip (eq_ok_of_mapError (sameCondition.isMet world.symbols) unmet) runs', same⟩
  | @once _ _ _ world _ _ _ met _ _ bodyInduction induction =>
    obtain ⟨condition', body', rest', rfl, sameCondition, inner, others⟩ := alike.block
    obtain ⟨bodyExit, bodyRuns, finished⟩ := bodyInduction inner
    obtain rfl := Exit.eq_finished finished
    obtain ⟨exit', runs', same⟩ := induction others
    exact ⟨exit', .once (eq_ok_of_mapError (sameCondition.isMet world.symbols) met) bodyRuns runs',
      same⟩
  | @again _ _ _ world _ _ _ met _ _ bodyInduction induction =>
    obtain ⟨exit', runs', same⟩ := induction alike
    obtain ⟨condition', body', rest', rfl, sameCondition, inner, others⟩ := alike.block
    obtain ⟨bodyExit, bodyRuns, finished⟩ := bodyInduction inner
    obtain rfl := Exit.eq_finished finished
    exact ⟨exit', .again (eq_ok_of_mapError (sameCondition.isMet world.symbols) met) bodyRuns runs',
      same⟩
  | @leave _ _ _ _ world _ exit met _ left induction =>
    obtain ⟨condition', body', rest', rfl, sameCondition, inner, others⟩ := alike.block
    obtain ⟨exit', runs', same⟩ := induction inner
    refine ⟨exit', .leave (eq_ok_of_mapError (sameCondition.isMet world.symbols) met) runs' ?_,
      same⟩
    rintro rfl
    exact left (Exit.eq_finished same.symm)

theorem RunsToEnd.exists_alike {program program' here here' : List Statement}
    {world final : World} {fault : Option Diagnostic}
    (runs : RunsToEnd program here world fault final) (alike : AllAlike program program')
    (alikeHere : AllAlike here here') :
    ∃ fault', RunsToEnd program' here' world fault' final ∧
      fault'.map Diagnostic.fault = fault.map Diagnostic.fault := by
  induction runs generalizing here' with
  | finished runs =>
    obtain ⟨exit, runs', finished⟩ := runs.exists_alike alikeHere
    obtain rfl := Exit.eq_finished finished
    exact ⟨none, .finished runs', rfl⟩
  | failed runs =>
    obtain ⟨exit, runs', same⟩ := runs.exists_alike alikeHere
    cases exit with
    | failed diagnostic =>
      refine ⟨some diagnostic, .failed runs', ?_⟩
      simpa [Exit.unplaced] using same
    | finished => cases same
    | jumped name => cases same
  | jumped runs found _ induction =>
    obtain ⟨exit, runs', same⟩ := runs.exists_alike alikeHere
    obtain ⟨there', found', alikeThere⟩ := alike.fromLabel? found
    obtain ⟨fault', ends, sameFault⟩ := induction alikeThere
    cases exit with
    | jumped name =>
      obtain rfl := Exit.jumped.inj same
      exact ⟨fault', .jumped runs' found' ends, sameFault⟩
    | finished => cases same
    | failed diagnostic => cases same

end TeenyBasic
