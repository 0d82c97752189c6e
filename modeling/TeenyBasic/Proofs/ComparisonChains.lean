import TeenyBasic.CProgram
import TeenyBasic.Machine
import TeenyBasic.Proofs.FormulaReading
import TeenyBasic.Proofs.OperatorGroups
import TeenyBasic.Proofs.WholeDoubles

/-!
# Chains of comparisons

A condition that compares more than once is a chain.  A machine goes through it from the left: the
outcome of a comparison, one or zero, is compared with the next operand.  In C the same text is
grouped by the precedence of its operators: `==` and `!=` bind weaker than the other relations, and
both groups join from the left.  So the two agree on a chain, whatever its operands are, just if no
other relation stands behind an `==` or `!=` (`meansTheSame_iff`).
-/

namespace TeenyBasic

/-- Whether the relation is one of the two that bind weaker in C. -/
def Relation.isEquality : Relation → Bool
  | equal | unequal => true
  | less | lessEqual | greater | greaterEqual => false

/-- A comparison as C groups it. -/
inductive CComparison
  | constant (number : ℕ)
  | compare (relation : Relation) (left right : CComparison)

namespace CComparison

/-- The text of a comparison, which shows nothing of its groups. -/
def code : CComparison → String
  | constant number => String.ofList (Number.wholeDigits number)
  | compare relation left right => left.code ++ (" " ++ relation.text ++ " " ++ right.code)

/-- The value of a comparison in C: one if it succeeds, else zero. -/
def value : CComparison → ℕ
  | constant number => number
  | compare relation left right => (relation.compares left.value right.value).toNat

/-- The relations that bind tighter, joined from the left. -/
def IsRelational : CComparison → Prop
  | constant _ => True
  | compare relation left (constant _) => relation.isEquality = false ∧ left.IsRelational
  | compare _ _ (compare _ _ _) => False

/-- Groups of relations that bind tighter, joined from the left by those that bind weaker. -/
def IsGrouped : CComparison → Prop
  | constant _ => True
  | compare relation left right =>
      if relation.isEquality then left.IsGrouped ∧ right.IsRelational
      else (compare relation left right).IsRelational

def Reads (code : String) (comparison : CComparison) : Prop :=
  comparison.code = code ∧ comparison.IsGrouped

private theorem text_ne_wholeDigits {relation : Relation} (equality : relation.isEquality = true)
    (number : ℕ) : String.ofList (Number.wholeDigits number) ≠ relation.text := by
  intro same
  have digits {character : Char} (member : character ∈ relation.text.toList) :
      character.isDigit = true := by
    rw [← same, String.toList_ofList] at member
    exact Number.isDigit_of_mem_wholeDigits member
  cases relation with
  | equal => exact absurd (@digits '=' (by decide)) (by decide)
  | unequal => exact absurd (@digits '=' (by decide)) (by decide)
  | _ => cases equality

def script : OperatorScript Relation ℕ where
  operandText number := String.ofList (Number.wholeDigits number)
  operatorText := Relation.text
  isWeak := Relation.isEquality
  operandText_inj same := Number.wholeDigits_injective (String.ofList_injective same)
  operatorText_inj {relation relation'} same := by
    revert same
    cases relation <;> cases relation' <;> decide
  blank_notMem_operandText number member := by
    rw [String.toList_ofList] at member
    exact absurd (Number.isDigit_of_mem_wholeDigits member) (by decide)
  blank_notMem_operatorText relation := by cases relation <;> decide
  operandText_ne number _ equality := text_ne_wholeDigits equality number

/-- The comparison as operands that are joined by relations. -/
def toGroup : CComparison → OperatorGroup Relation ℕ
  | constant number => .operand number
  | compare relation left right => .join relation left.toGroup right.toGroup

@[simp] theorem code_toGroup (comparison : CComparison) :
    comparison.toGroup.code script = comparison.code := by
  induction comparison with
  | constant number => rfl
  | compare relation left right left_eq right_eq =>
    rw [toGroup, OperatorGroup.code, left_eq, right_eq]
    rfl

private theorem toGroup_injective {comparison other : CComparison}
    (same : comparison.toGroup = other.toGroup) : comparison = other := by
  induction comparison generalizing other with
  | constant number =>
    cases other with
    | constant number' => rw [OperatorGroup.operand.inj same]
    | compare => cases same
  | compare relation left right left_ih right_ih =>
    cases other with
    | constant => cases same
    | compare relation' left' right' =>
      obtain ⟨relation_eq, left_eq, right_eq⟩ := OperatorGroup.join.inj same
      rw [relation_eq, left_ih left_eq, right_ih right_eq]

theorem IsRelational.isTight {comparison : CComparison} (tight : comparison.IsRelational) :
    comparison.toGroup.IsTight Relation.isEquality := by
  induction comparison with
  | constant number => trivial
  | compare relation left right left_ih _ =>
    cases right with
    | compare => exact tight.elim
    | constant number => exact ⟨tight.1, left_ih tight.2⟩

theorem IsRelational.isGrouped {comparison : CComparison} (tight : comparison.IsRelational) :
    comparison.IsGrouped := by
  cases comparison with
  | constant number => trivial
  | compare relation left right =>
    cases right with
    | compare => exact tight.elim
    | constant number =>
      rw [IsGrouped, if_neg (by simp [tight.1])]
      exact tight

theorem IsGrouped.toGroup {comparison : CComparison} (grouped : comparison.IsGrouped) :
    comparison.toGroup.IsGrouped Relation.isEquality := by
  induction comparison with
  | constant number => trivial
  | compare relation left right left_ih _ =>
    unfold IsGrouped at grouped
    split at grouped
    · next equality =>
      rw [CComparison.toGroup, OperatorGroup.IsGrouped, if_pos equality]
      exact ⟨left_ih grouped.1, grouped.2.isTight⟩
    · exact (IsRelational.isTight grouped).isGrouped

/-- No text has two readings in C. -/
theorem Reads.unique {code : String} {comparison other : CComparison}
    (reads : Reads code comparison) (reads' : Reads code other) : comparison = other := by
  have group_reads : OperatorGroup.Reads script code comparison.toGroup :=
    ⟨(code_toGroup comparison).trans reads.1, reads.2.toGroup⟩
  have group_reads' : OperatorGroup.Reads script code other.toGroup :=
    ⟨(code_toGroup other).trans reads'.1, reads'.2.toGroup⟩
  exact toGroup_injective (group_reads.unique group_reads')

/-- A chain being grouped: the group that still grows, and the relation and the left side that it
stands behind, if there is one. -/
structure Grouping where
  outer : Option (CComparison × Relation)
  inner : CComparison

namespace Grouping

/-- The comparison as it is if nothing follows. -/
def whole (grouping : Grouping) : CComparison :=
  match grouping.outer with
  | none => grouping.inner
  | some (left, relation) => .compare relation left grouping.inner

/-- One more relation and operand: they make the group grow or begin a new one. -/
def join (grouping : Grouping) (step : Relation × ℕ) : Grouping :=
  if step.1.isEquality then ⟨some (grouping.whole, step.1), .constant step.2⟩
  else ⟨grouping.outer, .compare step.1 grouping.inner (.constant step.2)⟩

def ofChain (first : ℕ) (steps : List (Relation × ℕ)) : Grouping :=
  steps.foldl join ⟨none, .constant first⟩

@[simp] theorem ofChain_append (first : ℕ) (steps : List (Relation × ℕ)) (step : Relation × ℕ) :
    ofChain first (steps ++ [step]) = (ofChain first steps).join step := by
  rw [ofChain, List.foldl_append]
  rfl

theorem join_of_isEquality {step : Relation × ℕ} (equality : step.1.isEquality = true)
    (grouping : Grouping) :
    grouping.join step = ⟨some (grouping.whole, step.1), .constant step.2⟩ := by
  rw [join, if_pos equality]

theorem join_of_ordering {step : Relation × ℕ} (ordering : step.1.isEquality = false)
    (grouping : Grouping) :
    grouping.join step = ⟨grouping.outer, .compare step.1 grouping.inner (.constant step.2)⟩ := by
  rw [join, if_neg (by simp [ordering])]

/-- The parts of a grouping obey the precedence of C. -/
structure Lawful (grouping : Grouping) : Prop where
  inner : grouping.inner.IsRelational
  outer : ∀ left relation, grouping.outer = some (left, relation) →
    left.IsGrouped ∧ relation.isEquality = true

theorem Lawful.whole {grouping : Grouping} (lawful : grouping.Lawful) :
    grouping.whole.IsGrouped := by
  unfold Grouping.whole
  split
  · exact lawful.inner.isGrouped
  · next left relation outer =>
    obtain ⟨grouped, equality⟩ := lawful.outer left relation outer
    rw [IsGrouped, if_pos equality]
    exact ⟨grouped, lawful.inner⟩

theorem Lawful.join {grouping : Grouping} (lawful : grouping.Lawful) (step : Relation × ℕ) :
    (grouping.join step).Lawful := by
  cases kind : step.1.isEquality with
  | true =>
    rw [join_of_isEquality kind]
    refine ⟨trivial, ?_⟩
    intro left relation outer
    cases outer
    exact ⟨lawful.whole, kind⟩
  | false =>
    rw [join_of_ordering kind]
    exact ⟨⟨kind, lawful.inner⟩, lawful.outer⟩

theorem lawful_ofChain (first : ℕ) (steps : List (Relation × ℕ)) :
    (ofChain first steps).Lawful := by
  induction steps using List.reverseRecOn with
  | nil => exact ⟨trivial, nofun⟩
  | append_singleton steps step induction =>
    rw [ofChain_append]
    exact induction.join step

theorem code_join (grouping : Grouping) (step : Relation × ℕ) :
    (grouping.join step).whole.code = grouping.whole.code ++
      (" " ++ step.1.text ++ " " ++ String.ofList (Number.wholeDigits step.2)) := by
  cases kind : step.1.isEquality with
  | true =>
    rw [join_of_isEquality kind]
    rfl
  | false =>
    rw [join_of_ordering kind]
    unfold whole
    cases grouping.outer with
    | none => rfl
    | some outer =>
      simp only [code, String.append_assoc]

private theorem code_ofChain (first : ℕ) (steps : List (Relation × ℕ)) :
    (ofChain first steps).whole.code =
      Formula.code ⟨String.ofList (Number.wholeDigits first), steps.map fun step =>
        (.relation step.1, String.ofList (Number.wholeDigits step.2))⟩ := by
  induction steps using List.reverseRecOn with
  | nil => rfl
  | append_singleton steps step induction =>
    rw [ofChain_append, code_join, induction, List.map_append]
    simp only [Formula.code, List.foldl_append, List.map_cons, List.map_nil, List.foldl_cons,
      List.foldl_nil, Operator.code, String.append_assoc]

/-- C reads a chain as its grouping and in no other way. -/
@[simp] theorem reads_ofChain_iff (first : ℕ) (steps : List (Relation × ℕ))
    (comparison : CComparison) :
    Reads (ofChain first steps).whole.code comparison ↔
      comparison = (ofChain first steps).whole := by
  have reads : Reads (ofChain first steps).whole.code (ofChain first steps).whole :=
    ⟨rfl, (lawful_ofChain first steps).whole⟩
  constructor
  · intro other
    exact other.unique reads
  · rintro rfl
    exact reads

end Grouping

end CComparison

/-- The value of a chain whose outcomes are compared from the left. -/
def chainValue (first : ℕ) (steps : List (Relation × ℕ)) : ℕ :=
  steps.foldl (fun left step => (step.1.compares left step.2).toNat) first

@[simp] theorem chainValue_append (first : ℕ) (steps : List (Relation × ℕ)) (step : Relation × ℕ) :
    chainValue first (steps ++ [step]) =
      (step.1.compares (chainValue first steps) step.2).toNat := by
  rw [chainValue, List.foldl_append]
  rfl

/-- No relation that binds tighter stands behind one that binds weaker. -/
def OrderingsFirst (relations : List Relation) : Prop :=
  relations.Pairwise fun earlier later => earlier.isEquality = true → later.isEquality = true

instance (relations : List Relation) : Decidable (OrderingsFirst relations) :=
  inferInstanceAs (Decidable (relations.Pairwise _))

/-- A weaker relation between two outcomes asks whether they are the same. -/
theorem Relation.compares_toNat {relation : Relation} (equality : relation.isEquality = true)
    (left right : Bool) : relation.compares left.toNat right.toNat =
      (decide (relation = .equal) == (left == right)) := by
  cases relation with
  | equal => cases left <;> cases right <;> decide
  | unequal => cases left <;> cases right <;> decide
  | _ => cases equality

private theorem Relation.compares_two {relation : Relation} (ordering : relation.isEquality = false)
    (left : Bool) : relation.compares left.toNat 2 = relation.compares false.toNat 2 := by
  cases relation with
  | equal => cases ordering
  | unequal => cases ordering
  | _ => cases left <;> decide

private theorem Relation.exists_compares_one (relation : Relation) (outcome : Bool) :
    ∃ number ≤ 2, relation.compares 1 number = outcome := by
  cases relation <;> cases outcome <;> decide

theorem orderingsFirst_append {relations : List Relation} {relation : Relation} :
    OrderingsFirst (relations ++ [relation]) ↔ OrderingsFirst relations ∧
      ((∃ earlier ∈ relations, earlier.isEquality = true) → relation.isEquality = true) := by
  simp [OrderingsFirst, List.pairwise_append]

namespace CComparison.Grouping

@[simp] theorem isSome_outer_ofChain_iff (first : ℕ) (steps : List (Relation × ℕ)) :
    (ofChain first steps).outer.isSome = true ↔
      ∃ relation ∈ steps.map Prod.fst, relation.isEquality = true := by
  induction steps using List.reverseRecOn with
  | nil => exact ⟨nofun, nofun⟩
  | append_singleton steps step induction =>
    rw [ofChain_append]
    cases kind : step.1.isEquality with
    | true =>
      rw [join_of_isEquality kind]
      simp [kind]
    | false =>
      rw [join_of_ordering kind, induction]
      simp [kind]

/-- A chain without a tighter relation behind a weaker one has its value from the left. -/
theorem value_ofChain {first : ℕ} {steps : List (Relation × ℕ)}
    (ordered : OrderingsFirst (steps.map Prod.fst)) :
    (ofChain first steps).whole.value = chainValue first steps := by
  induction steps using List.reverseRecOn with
  | nil => rfl
  | append_singleton steps step induction =>
    rw [List.map_append, List.map_singleton, orderingsFirst_append] at ordered
    have induction := induction ordered.1
    rw [ofChain_append, chainValue_append, ← induction]
    cases kind : step.1.isEquality with
    | true =>
      rw [join_of_isEquality kind]
      rfl
    | false =>
      -- nothing weaker stands in front, so the group is the whole chain
      have alone : (ofChain first steps).outer = none := by
        rw [← Option.not_isSome_iff_eq_none, isSome_outer_ofChain_iff]
        intro earlier
        rw [ordered.2 earlier] at kind
        cases kind
      rw [join_of_ordering kind]
      simp only [whole, alone]
      rfl

/-- No operand of the chain is above two. -/
def Small (first : ℕ) (steps : List (Relation × ℕ)) : Prop :=
  ∀ number ∈ first :: steps.map Prod.snd, number ≤ 2

theorem Small.append {first : ℕ} {steps : List (Relation × ℕ)} (small : Small first steps)
    {step : Relation × ℕ} (bound : step.2 ≤ 2) : Small first (steps ++ [step]) := by
  intro number member
  rw [List.map_append, ← List.cons_append, List.mem_append] at member
  rcases member with member | member
  · exact small number member
  · rw [List.mem_singleton.mp member]
    exact bound

private theorem value_whole {grouping : Grouping} (lawful : grouping.Lawful) {outcome : Bool}
    (inner : grouping.inner.value = outcome.toNat)
    (sides : ∀ left relation, grouping.outer = some (left, relation) →
      left.value = (decide (relation = .equal)).toNat) :
    grouping.whole.value = outcome.toNat := by
  cases outer : grouping.outer with
  | none =>
    rw [whole, outer]
    exact inner
  | some pair =>
    obtain ⟨left, relation⟩ := pair
    have equality := (lawful.outer left relation outer).2
    rw [whole, outer]
    simp only [value, inner, sides left relation outer, Relation.compares_toNat equality,
      Bool.beq_self_left]

/-- The group that still grows and the side in front of it may have any outcome, also one that
depends on the relation between them. -/
theorem exists_ofChain (relations : List Relation) (side : Relation → Bool) (inner : Bool) :
    ∃ first steps, steps.map Prod.fst = relations ∧ Small first steps ∧
      (ofChain first steps).inner.value = inner.toNat ∧
      ∀ left relation, (ofChain first steps).outer = some (left, relation) →
        left.value = (side relation).toNat := by
  induction relations using List.reverseRecOn generalizing side inner with
  | nil =>
    refine ⟨inner.toNat, [], rfl, ?_, rfl, nofun⟩
    cases inner <;> simp [Small]
  | append_singleton relations relation induction =>
    cases kind : relation.isEquality with
    | true =>
      obtain ⟨first, steps, same, small, value, sides⟩ :=
        induction (fun relation => decide (relation = .equal)) (side relation)
      have bound : inner.toNat ≤ 2 := by cases inner <;> decide
      refine ⟨first, steps ++ [(relation, inner.toNat)], ?_, small.append bound, ?_, ?_⟩
      · simp [same]
      · rw [ofChain_append, join_of_isEquality kind]
        rfl
      · rw [ofChain_append, join_of_isEquality kind]
        rintro left relation ⟨⟩
        exact value_whole (lawful_ofChain first steps) value sides
    | false =>
      obtain ⟨first, steps, same, small, value, sides⟩ := induction side true
      obtain ⟨number, bound, outcome⟩ := relation.exists_compares_one inner
      refine ⟨first, steps ++ [(relation, number)], ?_, small.append bound, ?_, ?_⟩
      · simp [same]
      · rw [ofChain_append, join_of_ordering kind]
        simp only [CComparison.value, value]
        exact congrArg Bool.toNat outcome
      · rw [ofChain_append, join_of_ordering kind]
        exact sides

private theorem exists_chainValue_eq {first : ℕ} {steps : List (Relation × ℕ)}
    (nonempty : steps ≠ []) :
    ∃ outcome : Bool, chainValue first steps = outcome.toNat := by
  induction steps using List.reverseRecOn with
  | nil => exact absurd rfl nonempty
  | append_singleton steps step _ => exact ⟨_, chainValue_append first steps step⟩

private theorem exists_value_ne_of_ordering {relations : List Relation} {relation : Relation}
    (earlier : ∃ earlier ∈ relations, earlier.isEquality = true)
    (ordering : relation.isEquality = false) :
    ∃ first steps, steps.map Prod.fst = relations ++ [relation] ∧ Small first steps ∧
      ∃ outcome : Bool, (ofChain first steps).whole.value = outcome.toNat ∧
        chainValue first steps = (!outcome).toNat := by
  obtain ⟨first, steps, rfl, small, value, sides⟩ :=
    exists_ofChain relations (fun relation => !decide (relation = .equal)) false
  obtain ⟨⟨left, weaker⟩, outer⟩ :=
    Option.isSome_iff_exists.mp ((isSome_outer_ofChain_iff first steps).mpr earlier)
  have equality := ((lawful_ofChain first steps).outer left weaker outer).2
  have nonempty : steps ≠ [] := by
    rintro rfl
    obtain ⟨_, member, _⟩ := earlier
    cases member
  obtain ⟨outcome, running⟩ := @exists_chainValue_eq first steps nonempty
  -- from the left, the last comparison has one outcome whatever stands in front of it
  refine ⟨first, steps ++ [(relation, 2)], ?_, small.append le_rfl,
    !relation.compares false.toNat 2, ?_, ?_⟩
  · simp
  · rw [ofChain_append, join_of_ordering ordering]
    simp only [whole, outer, CComparison.value, value, sides left weaker outer,
      Relation.compares_toNat equality]
    generalize decide (weaker = .equal) = same
    cases same <;> simp
  · rw [chainValue_append, running, Bool.not_not]
    exact congrArg Bool.toNat (Relation.compares_two ordering outcome)

/-- A chain with a tighter relation behind a weaker one has operands for which its grouping in C
does not have the value from the left. -/
theorem exists_value_ne {relations : List Relation} (unordered : ¬ OrderingsFirst relations) :
    ∃ first steps, steps.map Prod.fst = relations ∧ Small first steps ∧ ∃ outcome : Bool,
      (ofChain first steps).whole.value = outcome.toNat ∧
        chainValue first steps = (!outcome).toNat := by
  induction relations using List.reverseRecOn with
  | nil => exact absurd .nil unordered
  | append_singleton relations relation induction =>
    rw [orderingsFirst_append] at unordered
    cases kind : relation.isEquality with
    | true =>
      -- the difference is in front, and a comparison with one keeps it
      have earlier : ¬ OrderingsFirst relations := fun ordered => unordered ⟨ordered, fun _ => kind⟩
      obtain ⟨first, steps, same, small, outcome, grouped, value⟩ := induction earlier
      refine ⟨first, steps ++ [(relation, true.toNat)], ?_, small.append one_le_two,
        relation.compares outcome.toNat true.toNat, ?_, ?_⟩
      · simp [same]
      · rw [ofChain_append, join_of_isEquality kind, ← grouped]
        rfl
      · rw [chainValue_append, value]
        simp only [Relation.compares_toNat kind]
        generalize decide (relation = .equal) = same
        cases same <;> simp
    | false =>
      by_cases earlier : ∃ earlier ∈ relations, earlier.isEquality = true
      · exact exists_value_ne_of_ordering earlier kind
      · refine absurd ⟨?_, fun some => absurd some earlier⟩ unordered
        exact List.pairwise_of_forall_mem_list fun relation member _ _ equality =>
          absurd ⟨relation, member, equality⟩ earlier

end CComparison.Grouping

/-- Tokens of a chain of literals: whole numbers that an `int` in C holds, with relations between
them, up to tokens that do not begin with an operator. -/
inductive ComparisonChain : ℕ → List (Relation × ℕ) → List Token → List Token → Prop
  | last {value : Float} {number : ℕ} {text : String} {line : Int} {behind : List Token}
      (whole : Number.IsWhole value number) (small : number < 2 ^ 31)
      (stops : Formula.Stops (fun _ => true) behind) :
      ComparisonChain number [] (⟨.number value, text, line⟩ :: behind) behind
  | further {value : Float} {number right : ℕ} {relation : Relation} {text sign : String}
      {line line' : Int} {steps : List (Relation × ℕ)} {tokens behind : List Token}
      (whole : Number.IsWhole value number) (small : number < 2 ^ 31)
      (rest : ComparisonChain right steps tokens behind) :
      ComparisonChain number ((relation, right) :: steps)
        (⟨.number value, text, line⟩ :: ⟨.relation relation, sign, line'⟩ :: tokens) behind

/-- The operands of the row stand for those of the chain, with the same relations between them. -/
structure Formula.IsChain {α : Type} (represents : α → ℕ → Prop) (row : Formula α) (first : ℕ)
    (steps : List (Relation × ℕ)) : Prop where
  first : represents row.first first
  rest : List.Forall₂ (fun entry step => entry.1 = .relation step.1 ∧ represents entry.2 step.2)
    row.rest steps

namespace ComparisonChain

variable {first : ℕ} {steps : List (Relation × ℕ)} {tokens behind : List Token}

private theorem exists_read (chain : ComparisonChain first steps tokens behind) {α : Type}
    {meaning : Meaning α} {represents : α → ℕ → Prop}
    (sound : ∀ value number, Number.IsWhole value number → number < 2 ^ 31 →
      represents (meaning.number value) number) (ending : Ending) :
    ∃ row, Formula.read (fun _ => true) meaning ending tokens = .ok (row, behind) ∧
      row.IsChain represents first steps := by
  induction chain with
  | @last value number text line behind whole small stops =>
    refine ⟨⟨meaning.number value, []⟩, ?_, sound value number whole small, .nil⟩
    rw [Formula.read]
    simp only [Formula.operand, Formula.sign?, Formula.primaryBehind, Formula.primary,
      Formula.operandsAfter_of_stops stops]
    rfl
  | @further value number right relation text sign line line' steps tokens behind whole small _
      induction =>
    obtain ⟨row, taken, chain⟩ := induction
    refine ⟨⟨meaning.number value, (.relation relation, row.first) :: row.rest⟩, ?_,
      sound value number whole small, .cons ⟨rfl, chain.first⟩ chain.rest⟩
    have rest_eq := @Formula.operandsAfter_operator α (fun _ => true) meaning ending
      ⟨.relation relation, sign, line'⟩ tokens (.relation relation) rfl rfl
    rw [taken] at rest_eq
    rw [Formula.read]
    simp only [Formula.operand, Formula.sign?, Formula.primaryBehind, Formula.primary, rest_eq]
    rfl

theorem exists_condition (chain : ComparisonChain first steps tokens behind)
    (nonempty : steps ≠ []) {α : Type} {meaning : Meaning α} {represents : α → ℕ → Prop}
    (sound : ∀ value number, Number.IsWhole value number → number < 2 ^ 31 →
      represents (meaning.number value) number) (ending : Ending) :
    ∃ row, Formula.condition meaning ending tokens = .ok (row, behind) ∧
      row.IsChain represents first steps := by
  obtain ⟨row, taken, shape⟩ := chain.exists_read sound ending
  have compares : row.compares = true := by
    obtain ⟨start, rest⟩ := row
    cases shape.rest with
    | nil => exact absurd rfl nonempty
    | cons entry _ => simp [Formula.compares, entry.1, Operator.isArithmetic]
  refine ⟨row, ?_, shape⟩
  rw [Formula.condition, taken]
  simp only [compares, if_true]

theorem exists_tokens (small : ∀ number ∈ first :: steps.map Prod.snd, number < 2 ^ 31) :
    ∃ tokens, ComparisonChain first steps tokens [] := by
  have whole (number : ℕ) (small : number < 2 ^ 31) :
      Number.IsWhole (Lexer.numberValue (Number.wholeDigits number) []) number := by
    have exact : Number.digitsValue (Number.wholeDigits number) < 2 ^ 53 := by
      rw [Number.digitsValue_wholeDigits]
      omega
    have literal := Number.isWhole_numberValue exact 0
    rwa [Number.digitsValue_wholeDigits] at literal
  induction steps generalizing first with
  | nil =>
    have bound := small first List.mem_cons_self
    exact ⟨[⟨.number _, "", 1⟩], .last (whole first bound) bound nofun⟩
  | cons step steps induction =>
    obtain ⟨relation, right⟩ := step
    have bound := small first List.mem_cons_self
    obtain ⟨tokens, chain⟩ := @induction right fun number member =>
      small number (List.mem_cons_of_mem first member)
    exact ⟨⟨.number _, "", 1⟩ :: ⟨.relation relation, relation.text, 1⟩ :: tokens,
      .further (whole first bound) bound chain⟩

end ComparisonChain

namespace Formula.IsChain

variable {first : ℕ} {steps : List (Relation × ℕ)}

theorem code_eq {row : Formula String}
    (chain : row.IsChain (fun text number => text = String.ofList (Number.wholeDigits number))
      first steps) : row.code = (CComparison.Grouping.ofChain first steps).whole.code := by
  obtain ⟨first_eq, rest⟩ := chain
  have rest_eq : row.rest = steps.map fun step =>
      (.relation step.1, String.ofList (Number.wholeDigits step.2)) := by
    rw [← List.forall₂_eq_eq_eq, List.forall₂_map_right_iff]
    exact rest.imp fun entry step same => Prod.ext same.1 same.2
  rw [CComparison.Grouping.code_ofChain, ← first_eq, ← rest_eq]

theorem isWhole_truth (outcome : Bool) : Number.IsWhole (truth outcome) outcome.toNat := by
  cases outcome with
  | false => exact ⟨0, -1074, by decide +kernel, by decide +kernel⟩
  | true => exact ⟨2 ^ 52, -52, by decide +kernel, by decide +kernel⟩

/-- A chain that goes on behind a complete comparison has its value from the left. -/
theorem isWhole_valueFrom {rest : List (Operator × Float)} {steps : List (Relation × ℕ)}
    (same : List.Forall₂ (fun entry step => entry.1 = .relation step.1 ∧
      Number.IsWhole entry.2 step.2) rest steps)
    {comparison : Float → Float} {operand : Float} {number : ℕ}
    (whole : Number.IsWhole (comparison operand) number) :
    Number.IsWhole (valueFrom comparison id operand rest) (chainValue number steps) := by
  induction same generalizing comparison operand number with
  | nil => exact whole
  | @cons entry step rest steps here _ induction =>
    obtain ⟨operator, right⟩ := entry
    obtain ⟨rfl, whole'⟩ := here
    refine induction ?_
    rw [id, Relation.holds_eq_compares whole whole']
    exact isWhole_truth _

private theorem isMet_iff {row : Formula Float} (chain : row.IsChain Number.IsWhole first steps) :
    row.isMet = true ↔ chainValue first steps ≠ 0 := by
  have whole : Number.IsWhole row.value (chainValue first steps) :=
    isWhole_valueFrom chain.rest chain.first
  have differs : row.isMet = !(row.value == 0.0) := rfl
  have zero : Number.IsWhole 0.0 0 := isWhole_truth false
  rw [differs, Number.beq_eq_of_isWhole whole zero]
  simp

end Formula.IsChain

/-- Both readers take the tokens as a condition, C reads the text of it in one way, and the
comparison that it reads succeeds just if the condition is met. -/
def MeansTheSame (ending : Ending) (draft : Draft) (machine : Machine) (tokens : List Token) :
    Prop :=
  ∃ code condition behind comparison,
    Formula.condition draft.meaning ending tokens = .ok (code, behind) ∧
    Formula.condition machine.meaning ending tokens = .ok (condition, behind) ∧
    (∀ other, CComparison.Reads code.code other ↔ other = comparison) ∧
    (condition.isMet = true ↔ comparison.value ≠ 0)

open CComparison.Grouping in
theorem ComparisonChain.meansTheSame_iff_value {first : ℕ} {steps : List (Relation × ℕ)}
    {tokens behind : List Token} (chain : ComparisonChain first steps tokens behind)
    (nonempty : steps ≠ []) (ending : Ending) (draft : Draft) (machine : Machine) :
    MeansTheSame ending draft machine tokens ↔
      (chainValue first steps ≠ 0 ↔ (ofChain first steps).whole.value ≠ 0) := by
  obtain ⟨code, written, texts⟩ := @exists_condition _ _ _ _ chain nonempty _ draft.meaning
    (fun text number => text = String.ofList (Number.wholeDigits number))
    (fun value number whole small => Number.written_of_isWhole whole (by omega)) ending
  obtain ⟨condition, computed, values⟩ := @exists_condition _ _ _ _ chain nonempty _
    machine.meaning Number.IsWhole (fun _ _ whole _ => whole) ending
  have reads (comparison : CComparison) : CComparison.Reads code.code comparison ↔
      comparison = (ofChain first steps).whole := by
    rw [texts.code_eq, reads_ofChain_iff]
  rw [← values.isMet_iff]
  constructor
  · rintro ⟨code', condition', behind', comparison, written', computed', reads', same⟩
    cases written.symm.trans written'
    cases computed.symm.trans computed'
    rwa [(reads comparison).mp ((reads' comparison).mpr rfl)] at same
  · intro same
    exact ⟨code, condition, behind, _, written, computed, reads, same⟩

/-- Chains with these relations mean the same in C and on the machine, whatever their operands
are, just if no `<`, `<=`, `>` or `>=` stands behind an `==` or `!=`. -/
theorem meansTheSame_iff (ending : Ending) (draft : Draft) (machine : Machine)
    (relation : Relation) (relations : List Relation) :
    (∀ first steps tokens behind, steps.map Prod.fst = relation :: relations →
      ComparisonChain first steps tokens behind → MeansTheSame ending draft machine tokens) ↔
      OrderingsFirst (relation :: relations) := by
  have nonempty {steps : List (Relation × ℕ)} (same : steps.map Prod.fst = relation :: relations) :
      steps ≠ [] := by
    rintro rfl
    cases same
  constructor
  · intro agree
    by_contra unordered
    obtain ⟨first, steps, same, small, outcome, grouped, value⟩ :=
      CComparison.Grouping.exists_value_ne unordered
    obtain ⟨tokens, chain⟩ := ComparisonChain.exists_tokens fun number member =>
      (small number member).trans_lt (by decide : 2 < 2 ^ 31)
    have agrees := agree first steps tokens [] same chain
    rw [chain.meansTheSame_iff_value (nonempty same), grouped, value] at agrees
    cases outcome <;> simp at agrees
  · intro ordered first steps tokens behind same chain
    rw [chain.meansTheSame_iff_value (nonempty same)]
    rw [← same] at ordered
    rw [CComparison.Grouping.value_ofChain ordered]

example : OrderingsFirst [.less, .greater, .equal, .unequal] := by decide

/-- The tokens of `3 == 5 < 6` in front of `THEN`. -/
def equalThenLess : List Token :=
  [⟨.number (Lexer.numberValue ['3'] []), "3", 1⟩, ⟨.relation .equal, "==", 1⟩,
    ⟨.number (Lexer.numberValue ['5'] []), "5", 1⟩, ⟨.relation .less, "<", 1⟩,
    ⟨.number (Lexer.numberValue ['6'] []), "6", 1⟩, ⟨.keyword .thenWord, "THEN", 1⟩]

/-- The machine compares `0 < 6`, but C compares `3 == 1`. -/
theorem not_meansTheSame_equalThenLess :
    ComparisonChain 3 [(.equal, 5), (.less, 6)] equalThenLess [⟨.keyword .thenWord, "THEN", 1⟩] ∧
      ∀ ending draft machine, ¬ MeansTheSame ending draft machine equalThenLess := by
  have chain : ComparisonChain 3 [(.equal, 5), (.less, 6)] equalThenLess
      [⟨.keyword .thenWord, "THEN", 1⟩] := by
    refine .further (Number.isWhole_numberValue (by decide) 0) (by decide) ?_
    refine .further (Number.isWhole_numberValue (by decide) 0) (by decide) ?_
    exact .last (Number.isWhole_numberValue (by decide) 0) (by decide)
      (Formula.stops_keyword .thenWord "THEN" 1 [])
  refine ⟨chain, fun ending draft machine same => ?_⟩
  rw [chain.meansTheSame_iff_value (by simp)] at same
  revert same
  decide

end TeenyBasic
