/-!
# Operators in two groups of precedence

A text of operands with operators between them shows nothing of how it is grouped.  The precedence
of the operators settles that: those that bind tighter join operands, those that bind weaker join
what is then left, and both join from the left.  With two groups of operators a text has at most
one reading (`OperatorGroup.Reads.unique`).
-/

namespace TeenyBasic

inductive OperatorGroup (ω α : Type)
  | operand (value : α)
  | join (operator : ω) (left right : OperatorGroup ω α)

/-- How operands and operators are written, and which operators bind weaker.  Words can be told
apart, and no word has a blank in it. -/
structure OperatorScript (ω α : Type) where
  operandText : α → String
  operatorText : ω → String
  isWeak : ω → Bool
  operandText_inj : ∀ {value value' : α}, operandText value = operandText value' → value = value'
  operatorText_inj : ∀ {operator operator' : ω},
    operatorText operator = operatorText operator' → operator = operator'
  blank_notMem_operandText : ∀ value, ' ' ∉ (operandText value).toList
  blank_notMem_operatorText : ∀ operator, ' ' ∉ (operatorText operator).toList
  operandText_ne : ∀ value operator, isWeak operator = true →
    operandText value ≠ operatorText operator

namespace OperatorGroup

variable {ω α : Type}

def IsTight (isWeak : ω → Bool) : OperatorGroup ω α → Prop
  | operand _ => True
  | join operator left (operand _) => isWeak operator = false ∧ left.IsTight isWeak
  | join _ _ (join _ _ _) => False

/-- Tight groups, joined from the left by the operators that bind weaker. -/
def IsGrouped (isWeak : ω → Bool) : OperatorGroup ω α → Prop
  | operand _ => True
  | join operator left right =>
      if isWeak operator then left.IsGrouped isWeak ∧ right.IsTight isWeak
      else (join operator left right).IsTight isWeak

variable (script : OperatorScript ω α)

/-- The text, with a blank on both sides of every operator. -/
def code : OperatorGroup ω α → String
  | operand value => script.operandText value
  | join operator left right =>
      left.code ++ (" " ++ script.operatorText operator ++ " " ++ right.code)

def Reads (text : String) (group : OperatorGroup ω α) : Prop :=
  group.code script = text ∧ group.IsGrouped script.isWeak

def words : OperatorGroup ω α → List (List Char)
  | operand value => [(script.operandText value).toList]
  | join operator left right => left.words ++ (script.operatorText operator).toList :: right.words

@[simp] theorem splitOn_code (group : OperatorGroup ω α) :
    (group.code script).toList.splitOn ' ' = group.words script := by
  induction group with
  | operand value =>
    rw [code, List.splitOn_eq_singleton (script.blank_notMem_operandText value), words]
  | join operator left right left_eq right_eq =>
    have text_eq : ((join operator left right).code script).toList =
        (left.code script).toList ++
          ' ' :: ((script.operatorText operator).toList ++ ' ' :: (right.code script).toList) := by
      simp [code]
    rw [text_eq, List.splitOn_append_cons_self, List.splitOn_append_cons_self, left_eq, right_eq,
      List.splitOn_eq_singleton (script.blank_notMem_operatorText operator), words]
    rfl

private theorem words_ne_nil (group : OperatorGroup ω α) : group.words script ≠ [] := by
  cases group <;> simp [words]

theorem words_operand_ne (value : α) (operator : ω) (left right : OperatorGroup ω α) :
    (operand value).words script ≠ (join operator left right).words script := by
  intro same
  have lengths := congrArg List.length same
  have some := List.length_pos_iff.mpr (left.words_ne_nil script)
  simp only [words, List.length_append, List.length_cons, List.length_nil] at lengths
  omega

/-- The word is an operator that binds weaker. -/
def IsWeakWord (word : List Char) : Prop :=
  ∃ operator, script.isWeak operator = true ∧ word = (script.operatorText operator).toList

variable {script}

theorem not_isWeakWord_operandText (value : α) :
    ¬ IsWeakWord script (script.operandText value).toList := by
  rintro ⟨operator, weak, same⟩
  exact script.operandText_ne value operator weak (String.toList_injective same)

theorem IsTight.not_isWeakWord {group : OperatorGroup ω α} (tight : group.IsTight script.isWeak) :
    ∀ word ∈ group.words script, ¬ IsWeakWord script word := by
  induction group with
  | operand value =>
    intro word member
    rw [List.mem_singleton.mp member]
    exact not_isWeakWord_operandText value
  | join operator left right left_ih _ =>
    cases right with
    | join => exact tight.elim
    | operand value =>
      obtain ⟨strong, tight⟩ := tight
      intro word member
      rcases List.mem_append.mp member with member | member
      · exact left_ih tight word member
      rcases List.mem_cons.mp member with rfl | member
      · rintro ⟨other, weak, same⟩
        rw [script.operatorText_inj (String.toList_injective same), weak] at strong
        cases strong
      · rw [List.mem_singleton.mp member]
        exact not_isWeakWord_operandText value

theorem IsTight.eq_of_words {group other : OperatorGroup ω α}
    (tight : group.IsTight script.isWeak) (tight' : other.IsTight script.isWeak)
    (same : group.words script = other.words script) : group = other := by
  induction group generalizing other with
  | operand value =>
    cases other with
    | operand value' =>
      have text_eq := String.toList_injective (List.head_eq_of_cons_eq same)
      rw [script.operandText_inj text_eq]
    | join operator left right =>
      exact absurd same (words_operand_ne script value operator left right)
  | join operator left right left_ih _ =>
    cases right with
    | join => exact tight.elim
    | operand value =>
    cases other with
    | operand value' =>
      exact absurd same.symm (words_operand_ne script value' operator left (operand value))
    | join operator' left' right' =>
    cases right' with
    | join => exact tight'.elim
    | operand value' =>
      obtain ⟨front, back⟩ := List.append_inj' same rfl
      simp only [words, List.cons.injEq, and_true] at back
      rw [left_ih tight.2 tight'.2 front,
        script.operatorText_inj (String.toList_injective back.1),
        script.operandText_inj (String.toList_injective back.2)]

/-- A list is split at its last entry of a kind in one way. -/
theorem append_cons_inj_of_last {β : Type} {kind : β → Prop} {front front' back back' : List β}
    {entry entry' : β} (here : kind entry) (here' : kind entry')
    (last : ∀ other ∈ back, ¬ kind other) (last' : ∀ other ∈ back', ¬ kind other)
    (same : front ++ entry :: back = front' ++ entry' :: back') :
    front = front' ∧ entry = entry' ∧ back = back' := by
  rcases List.append_eq_append_iff.mp same with ⟨middle, rfl, rest⟩ | ⟨middle, rfl, rest⟩
  · cases middle with
    | nil =>
      obtain ⟨rfl, rfl⟩ := List.cons.inj rest
      exact ⟨(List.append_nil front).symm, rfl, rfl⟩
    | cons first middle =>
      obtain ⟨-, rfl⟩ := List.cons.inj rest
      exact absurd here' (last entry' (List.mem_append_right middle List.mem_cons_self))
  · cases middle with
    | nil =>
      obtain ⟨rfl, rfl⟩ := List.cons.inj rest
      exact ⟨List.append_nil front', rfl, rfl⟩
    | cons first middle =>
      obtain ⟨-, rfl⟩ := List.cons.inj rest
      exact absurd here (last' entry (List.mem_append_right middle List.mem_cons_self))

theorem IsTight.isGrouped {isWeak : ω → Bool} {group : OperatorGroup ω α}
    (tight : group.IsTight isWeak) : group.IsGrouped isWeak := by
  cases group with
  | operand value => trivial
  | join operator left right =>
    cases right with
    | join => exact tight.elim
    | operand value =>
      rw [IsGrouped, if_neg (by simp [tight.1])]
      exact tight

/-- Groups are one tight group, or their last tight group stands behind a weaker operator. -/
theorem IsGrouped.cases {isWeak : ω → Bool} {group : OperatorGroup ω α}
    (grouped : group.IsGrouped isWeak) :
    group.IsTight isWeak ∨ ∃ operator left right, group = join operator left right ∧
      isWeak operator = true ∧ left.IsGrouped isWeak ∧ right.IsTight isWeak := by
  cases group with
  | operand value => exact .inl trivial
  | join operator left right =>
    unfold IsGrouped at grouped
    split at grouped
    · next weak => exact .inr ⟨operator, left, right, rfl, weak, grouped⟩
    · exact .inl grouped

theorem IsTight.words_ne {group left right : OperatorGroup ω α} {operator : ω}
    (tight : group.IsTight script.isWeak) (weak : script.isWeak operator = true) :
    group.words script ≠ (join operator left right).words script := by
  intro same
  have member : (script.operatorText operator).toList ∈ group.words script := by
    rw [same]
    exact List.mem_append_right _ List.mem_cons_self
  exact tight.not_isWeakWord _ member ⟨operator, weak, rfl⟩

theorem IsGrouped.eq_of_words {group other : OperatorGroup ω α}
    (grouped : group.IsGrouped script.isWeak) (grouped' : other.IsGrouped script.isWeak)
    (same : group.words script = other.words script) : group = other := by
  induction group generalizing other with
  | operand value =>
    rcases grouped'.cases with tight' | ⟨_, _, _, rfl, weak, -, -⟩
    · exact IsTight.eq_of_words trivial tight' same
    · exact absurd same (IsTight.words_ne trivial weak)
  | join operator left right left_ih _ =>
    rcases grouped.cases with tight | ⟨operator, left, right, shape, weak, grouped, tight⟩
    · rcases grouped'.cases with tight' | ⟨_, _, _, rfl, weak, -, -⟩
      · exact tight.eq_of_words tight' same
      · exact absurd same (tight.words_ne weak)
    · cases shape
      rcases grouped'.cases with tight' |
        ⟨operator', left', right', rfl, weak', grouped', tight'⟩
      · exact absurd same.symm (tight'.words_ne weak)
      · obtain ⟨front, text, back⟩ := append_cons_inj_of_last ⟨operator, weak, rfl⟩
          ⟨operator', weak', rfl⟩ tight.not_isWeakWord tight'.not_isWeakWord same
        rw [left_ih grouped grouped' front,
          script.operatorText_inj (String.toList_injective text), tight.eq_of_words tight' back]

/-- No text has two readings. -/
theorem Reads.unique {text : String} {group other : OperatorGroup ω α}
    (reads : Reads script text group) (reads' : Reads script text other) : group = other := by
  refine reads.2.eq_of_words reads'.2 ?_
  rw [← splitOn_code, ← splitOn_code, reads.1, reads'.1]

end OperatorGroup

end TeenyBasic
