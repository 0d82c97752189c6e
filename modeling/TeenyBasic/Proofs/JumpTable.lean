import TeenyBasic.Destinations
import TeenyBasic.Proofs.NamesInOrder

/-!
# The table of jumps

The table is made in one pass that knows nothing of the grammar: it keeps a stack of opening words
and closes the innermost one.  Between the words of a block that the grammar derives, the pass
opens and closes blocks in pairs, so it finds for each such block the word that closes it, wherever
the block stands (`closer?_of_block`).  It finds every label where it stands (`label?_of_label`),
and it fails for no program whose labels are distinct (`exists_collect`).
-/

namespace TeenyBasic

namespace Grammar

/-- No word of the language stands between the tokens in front and `rest`. -/
def Passes (tokens rest : List Token) : Prop :=
  ∃ taken, tokens = taken ++ rest ∧ ∀ token ∈ taken, ∀ word, token.lexeme ≠ .keyword word

theorem Passes.refl (tokens : List Token) : Passes tokens tokens :=
  ⟨[], rfl, by simp⟩

theorem Passes.cons {token : Token} {tokens rest : List Token}
    (plain : ∀ word, token.lexeme ≠ .keyword word) (passes : Passes tokens rest) :
    Passes (token :: tokens) rest := by
  obtain ⟨taken, rfl, others⟩ := passes
  refine ⟨token :: taken, rfl, fun other member => ?_⟩
  rcases List.mem_cons.mp member with rfl | member
  · exact plain
  · exact others other member

theorem Passes.trans {tokens middle rest : List Token} (first : Passes tokens middle)
    (second : Passes middle rest) : Passes tokens rest := by
  obtain ⟨taken, rfl, firstPlain⟩ := first
  obtain ⟨further, rfl, secondPlain⟩ := second
  refine ⟨taken ++ further, by simp, fun token member => ?_⟩
  rcases List.mem_append.mp member with member | member
  · exact firstPlain token member
  · exact secondPlain token member

theorem Passes.suffix {tokens rest : List Token} (passes : Passes tokens rest) :
    rest <:+ tokens := by
  obtain ⟨taken, rfl, -⟩ := passes
  exact List.suffix_append taken rest

variable {tokens rest : List Token}

theorem Newline.passes (ends : Newline tokens rest) : Passes tokens rest := by
  induction ends with
  | one => exact (Passes.refl _).cons (by simp)
  | more _ induction => exact induction.cons (by simp)

theorem Primary.passes {tree : Expression} (derived : Primary tokens tree rest) :
    Passes tokens rest := by
  cases derived <;> exact (Passes.refl _).cons (by simp)

theorem Unary.passes {tree : Expression} (derived : Unary tokens tree rest) :
    Passes tokens rest := by
  cases derived with
  | unsigned derived => exact derived.passes
  | positive derived | negative derived => exact derived.passes.cons (by simp)

theorem Term.passes {tree : Expression} (derived : Term tokens tree rest) :
    Passes tokens rest := by
  induction derived with
  | first derived => exact derived.passes
  | further _ _ derived induction => exact induction.trans (derived.passes.cons (by simp))

theorem Sum.passes {tree : Expression} (derived : Sum tokens tree rest) :
    Passes tokens rest := by
  induction derived with
  | first derived => exact derived.passes
  | further _ _ derived induction => exact induction.trans (derived.passes.cons (by simp))

theorem Comparison.passes {tree : Condition} (derived : Comparison tokens tree rest) :
    Passes tokens rest := by
  induction derived with
  | first left right => exact left.passes.trans (right.passes.cons (by simp))
  | further _ right induction => exact induction.trans (right.passes.cons (by simp))

/-- A single line has one word, at its beginning, and it opens or closes no block. -/
theorem Line.passes {statement : Statement} (derived : Line tokens statement rest) :
    ∃ word text line tail, tokens = ⟨.keyword word, text, line⟩ :: tail ∧
      (∀ block : Block, word ≠ block.opener ∧ word ≠ block.closer) ∧ Passes tail rest := by
  cases derived with
  | printText =>
      exact ⟨_, _, _, _, rfl, by rintro (_ | _) <;> decide, (Passes.refl _).cons (by simp)⟩
  | printValue derived => exact ⟨_, _, _, _, rfl, by rintro (_ | _) <;> decide, derived.passes⟩
  | label | goto | input =>
      exact ⟨_, _, _, _, rfl, by rintro (_ | _) <;> decide, (Passes.refl _).cons (by simp)⟩
  | assign derived =>
      exact ⟨_, _, _, _, rfl, by rintro (_ | _) <;> decide,
        (derived.passes.cons (by simp)).cons (by simp)⟩

theorem Comparison.header_suffix {condition : Condition} {tokens middle inner : List Token}
    {separator : Token} (derived : Comparison tokens condition (separator :: middle))
    (ends : Newline middle inner) : inner <:+ tokens :=
  ends.passes.suffix.trans ((List.suffix_cons _ _).trans derived.passes.suffix)

theorem Statements.suffix {statements : List Statement}
    (derived : Statements tokens statements rest) : rest <:+ tokens := by
  induction derived with
  | none => exact List.suffix_refl _
  | line first ends _ induction =>
      obtain ⟨word, text, line, tail, rfl, -, passes⟩ := first.passes
      exact induction.trans ((passes.trans ends.passes).suffix.trans (List.suffix_cons _ _))
  | block condition ends _ ends' _ bodyInduction induction =>
      have body := ends'.passes.suffix.trans ((List.suffix_cons _ _).trans bodyInduction)
      exact ((induction.trans body).trans (condition.header_suffix ends)).trans
        (List.suffix_cons _ _)

end Grammar

namespace Destinations

theorem closingFrom_of_closer? {destinations : Destinations} {place closing : Nat}
    (found : destinations.closer? place = some closing) :
    destinations.closingFrom place = closing := by
  change ((destinations.closer? place).map Int.ofNat).getD destinations.lastPlace = closing
  rw [found]
  rfl

variable {destinations final : Destinations} {blocks : List (Block × Nat)} {place : Nat}
  {lastPlace : Int}

/-- The second table holds what the first one holds, and more behind it. -/
structure Grows (destinations next : Destinations) : Prop where
  closings : destinations.closings <+: next.closings
  labels : destinations.labels <+: next.labels

theorem Grows.refl (destinations : Destinations) : Grows destinations destinations :=
  ⟨List.prefix_refl _, List.prefix_refl _⟩

theorem Grows.trans {middle : Destinations} (first : Grows destinations middle)
    (second : Grows middle final) : Grows destinations final :=
  ⟨first.closings.trans second.closings, first.labels.trans second.labels⟩

/-- Every block that was opened, or opened and closed, was opened before a place. -/
def OpenedBefore (place : Nat) (destinations : Destinations) (blocks : List (Block × Nat)) :
    Prop :=
  (∀ closing ∈ destinations.closings, closing.1 < place) ∧ ∀ opened ∈ blocks, opened.2 < place

theorem OpenedBefore.next (opened : OpenedBefore place destinations blocks) :
    OpenedBefore (place + 1) destinations blocks :=
  ⟨fun closing member => Nat.lt_succ_of_lt (opened.1 closing member),
    fun block member => Nat.lt_succ_of_lt (opened.2 block member)⟩

theorem OpenedBefore.push (opened : OpenedBefore place destinations blocks) (block : Block) :
    OpenedBefore (place + 1) destinations ((block, place) :: blocks) := by
  refine ⟨opened.next.1, fun entry member => ?_⟩
  rcases List.mem_cons.mp member with rfl | member
  · exact Nat.lt_succ_self place
  · exact opened.next.2 entry member

theorem declare_eq_ok {next : Destinations} {tokens : List Token}
    (declared : destinations.declare place tokens = .ok next) :
    next.closings = destinations.closings ∧ Grows destinations next := by
  unfold declare at declared
  split at declared
  · split at declared
    · simp at declared
    · simp only [Except.ok.injEq] at declared
      subst declared
      exact ⟨rfl, List.prefix_refl _, List.prefix_append _ _⟩
  · simp only [Except.ok.injEq] at declared
    subst declared
    exact ⟨rfl, .refl _⟩

theorem grows_close (destinations : Destinations) (block : Block) (place : Nat)
    (blocks : List (Block × Nat)) :
    Grows destinations (destinations.close block place blocks).1 := by
  unfold close
  split
  · split
    · exact ⟨List.prefix_append _ _, List.prefix_refl _⟩
    · exact .refl _
  · exact .refl _

theorem OpenedBefore.close (opened : OpenedBefore place destinations blocks) (block : Block) :
    OpenedBefore (place + 1) (destinations.close block place blocks).1
      (destinations.close block place blocks).2 := by
  unfold Destinations.close
  split
  · next inner opener outer =>
    split
    · refine ⟨fun closing member => ?_, fun entry member => ?_⟩
      · rcases List.mem_append.mp member with member | member
        · exact opened.next.1 closing member
        · simp only [List.mem_singleton] at member
          subst member
          exact opened.next.2 (inner, opener) (by simp)
      · exact opened.next.2 entry (List.mem_cons_of_mem _ member)
    · exact opened.next
  · exact opened.next

/-- Going on behind a token: the table may have grown, by blocks that were opened before. -/
theorem exists_collect_of_cons {token : Token} {rest : List Token}
    (collected : collect destinations blocks place (token :: rest) = .ok final) :
    ∃ next inner, collect next inner (place + 1) rest = .ok final ∧ Grows destinations next ∧
      (OpenedBefore place destinations blocks → OpenedBefore (place + 1) next inner) := by
  unfold collect at collected
  split at collected
  · exact ⟨_, _, collected, .refl _, fun opened => opened.push _⟩
  · exact ⟨_, _, collected, .refl _, fun opened => opened.push _⟩
  · exact ⟨_, _, collected, grows_close _ _ _ _, fun opened => opened.close _⟩
  · exact ⟨_, _, collected, grows_close _ _ _ _, fun opened => opened.close _⟩
  · split at collected
    · simp at collected
    · next next declared =>
      obtain ⟨same, grows⟩ := declare_eq_ok declared
      refine ⟨_, _, collected, grows, fun opened => ⟨?_, opened.next.2⟩⟩
      rw [same]
      exact opened.next.1
  · exact ⟨_, _, collected, .refl _, OpenedBefore.next⟩

theorem grows_collect {tokens : List Token}
    (collected : collect destinations blocks place tokens = .ok final) :
    Grows destinations final := by
  induction tokens generalizing destinations blocks place with
  | nil =>
      simp only [collect, Except.ok.injEq] at collected
      exact collected ▸ .refl _
  | cons token rest induction =>
      obtain ⟨next, inner, further, grows, -⟩ := exists_collect_of_cons collected
      exact grows.trans (induction further)

/-- Going through the first tokens leads to a table for the others. -/
theorem exists_collect_of_append {taken rest : List Token}
    (collected : collect destinations blocks place (taken ++ rest) = .ok final)
    (opened : OpenedBefore place destinations blocks) :
    ∃ next inner, collect next inner (place + taken.length) rest = .ok final ∧
      OpenedBefore (place + taken.length) next inner := by
  induction taken generalizing destinations blocks place with
  | nil => exact ⟨_, _, collected, opened⟩
  | cons token taken induction =>
      obtain ⟨next, inner, further, -, keeps⟩ := exists_collect_of_cons collected
      have reached := induction further (keeps opened)
      rwa [List.length_cons, ← Nat.add_assoc, Nat.add_right_comm]

/-- Going from the tokens in front to `rest` leaves the open blocks as they were, and closes only
blocks that were opened on the way. -/
def Covers (tokens rest : List Token) : Prop :=
  ∀ ⦃destinations blocks place final⦄, collect destinations blocks place tokens = .ok final →
    ∃ next reached more, collect next blocks reached rest = .ok final ∧
      place ≤ reached ∧ reached + rest.length = place + tokens.length ∧
      next.closings = destinations.closings ++ more ∧ ∀ closing ∈ more, place ≤ closing.1

theorem Covers.refl (tokens : List Token) : Covers tokens tokens :=
  fun _ _ _ _ collected => ⟨_, _, [], collected, Nat.le_refl _, rfl, by simp, by simp⟩

theorem Covers.trans {tokens middle rest : List Token} (first : Covers tokens middle)
    (second : Covers middle rest) : Covers tokens rest := by
  intro destinations blocks place final collected
  obtain ⟨next, reached, more, further, later, lengths, closings, newer⟩ := first collected
  obtain ⟨last, stop, others, remaining, later', lengths', closings', newer'⟩ := second further
  refine ⟨last, stop, more ++ others, remaining, by omega, by omega, ?_, fun closing member => ?_⟩
  · rw [closings', closings, List.append_assoc]
  · rcases List.mem_append.mp member with member | member
    · exact newer closing member
    · exact Nat.le_trans later (newer' closing member)

theorem covers_cons {token : Token}
    (other : ∀ block : Block, token.lexeme ≠ .keyword block.opener ∧
      token.lexeme ≠ .keyword block.closer) (rest : List Token) :
    Covers (token :: rest) rest := by
  intro destinations blocks place final collected
  have conditional := other .conditional
  have loop := other .loop
  unfold collect at collected
  split at collected
  · next word => exact absurd word conditional.1
  · next word => exact absurd word loop.1
  · next word => exact absurd word conditional.2
  · next word => exact absurd word loop.2
  · split at collected
    · simp at collected
    · next next declared =>
      exact ⟨next, place + 1, [], collected, by omega, by simp; omega,
        by simp [(declare_eq_ok declared).1], by simp⟩
  · exact ⟨destinations, place + 1, [], collected, by omega, by simp; omega, by simp, by simp⟩

theorem covers_of_passes {tokens rest : List Token} (passes : Grammar.Passes tokens rest) :
    Covers tokens rest := by
  obtain ⟨taken, rfl, plain⟩ := passes
  induction taken with
  | nil => exact .refl _
  | cons token taken induction =>
      have first : Covers (token :: (taken ++ rest)) (taken ++ rest) :=
        covers_cons (fun block => ⟨plain token (by simp) _, plain token (by simp) _⟩) _
      exact first.trans (induction fun other member => plain other (List.mem_cons_of_mem _ member))

@[simp] theorem collect_opener (block : Block) (text : String) (line : Int) (rest : List Token) :
    collect destinations blocks place (⟨.keyword block.opener, text, line⟩ :: rest) =
      collect destinations ((block, place) :: blocks) (place + 1) rest := by
  cases block <;> rfl

@[simp] theorem collect_closer (block : Block) (opener : Nat) (text : String) (line : Int)
    (rest : List Token) :
    collect destinations ((block, opener) :: blocks) place
        (⟨.keyword block.closer, text, line⟩ :: rest) =
      collect { destinations with closings := destinations.closings ++ [(opener, place)] } blocks
        (place + 1) rest := by
  cases block <;> rfl

/-- The words of a block are found as a pair, whatever stands before and behind it. -/
theorem covers_block {block : Block} {tokens last : List Token} {text' : String} {line' : Int}
    (text : String) (line : Int)
    (inner : Covers tokens (⟨.keyword block.closer, text', line'⟩ :: last)) :
    Covers (⟨.keyword block.opener, text, line⟩ :: tokens) last := by
  intro destinations blocks place final collected
  rw [collect_opener] at collected
  obtain ⟨next, closing, more, further, later, lengths, closings, newer⟩ := inner collected
  rw [collect_closer] at further
  refine ⟨_, closing + 1, more ++ [(place, closing)], further, by omega, ?_, ?_, ?_⟩
  · simp only [List.length_cons] at lengths ⊢
    omega
  · simp [closings]
  · intro entry member
    rcases List.mem_append.mp member with member | member
    · exact Nat.le_of_succ_le (newer entry member)
    · simp only [List.mem_singleton] at member
      exact Nat.le_of_eq (by rw [member])

private theorem covers_of_line {tokens rest : List Token} {statement : Statement}
    (derived : Grammar.Line tokens statement rest) : Covers tokens rest := by
  obtain ⟨word, text, line, tail, rfl, other, passes⟩ := derived.passes
  exact (covers_cons (by simpa using other) tail).trans (covers_of_passes passes)

theorem covers_of_header {block : Block} {condition : Condition} {tokens middle inner : List Token}
    {text : String} {line : Int}
    (derived : Grammar.Comparison tokens condition
      (⟨.keyword block.separator, text, line⟩ :: middle))
    (ends : Grammar.Newline middle inner) : Covers tokens inner := by
  have separator : Covers (⟨.keyword block.separator, text, line⟩ :: middle) middle :=
    covers_cons (by
      cases block <;> rintro (_ | _) <;> simp [Block.separator, Block.opener, Block.closer]) _
  exact ((covers_of_passes derived.passes).trans separator).trans (covers_of_passes ends.passes)

private theorem covers_of_statements {tokens rest : List Token} {statements : List Statement}
    (derived : Grammar.Statements tokens statements rest) : Covers tokens rest := by
  induction derived with
  | none => exact .refl _
  | line first ends _ induction =>
      exact ((covers_of_line first).trans (covers_of_passes ends.passes)).trans induction
  | block condition ends _ ends' _ bodyInduction induction =>
      have inside := (covers_of_header condition ends).trans bodyInduction
      have line := covers_of_passes ends'.passes
      exact ((covers_block _ _ inside).trans line).trans induction

/-- A block that the grammar derives somewhere among the tokens is closed by its own closing
word. -/
theorem closer?_of_block {block : Block} {condition : Condition} {body : List Statement}
    {taken tokens middle inner last : List Token} {text text' text'' : String}
    {line line' line'' : Int}
    (collected : collect ⟨[], [], lastPlace⟩ [] 0
      (taken ++ ⟨.keyword block.opener, text, line⟩ :: tokens) = .ok final)
    (header : Grammar.Comparison tokens condition
      (⟨.keyword block.separator, text', line'⟩ :: middle))
    (ends : Grammar.Newline middle inner)
    (derived : Grammar.Statements inner body
      (⟨.keyword block.closer, text'', line''⟩ :: last)) :
    ∃ closing, final.closer? taken.length = some closing ∧
      closing + last.length = taken.length + tokens.length := by
  obtain ⟨next, blocks, further, opened⟩ :=
    exists_collect_of_append collected ⟨by simp, by simp⟩
  rw [Nat.zero_add] at further opened
  rw [collect_opener] at further
  obtain ⟨after, closing, more, remaining, later, lengths, closings, newer⟩ :=
    (covers_of_header header ends).trans (covers_of_statements derived) further
  rw [collect_closer] at remaining
  obtain ⟨others, whole⟩ := (grows_collect remaining).closings
  refine ⟨closing, ?_, ?_⟩
  · -- pairs noted before the block open before it, those noted inside open behind its first word
    have earlier : next.closings.find? (·.1 = taken.length) = none :=
      List.find?_eq_none.mpr fun entry member => by
        simpa using Nat.ne_of_lt (opened.1 entry member)
    have inside : more.find? (·.1 = taken.length) = none :=
      List.find?_eq_none.mpr fun entry member => by
        simpa using Nat.ne_of_gt (newer entry member)
    simp [closer?, ← whole, closings, List.find?_append, earlier, inside]
  · simp only [List.length_cons] at lengths
    omega

/-- A label is found where it is declared. -/
theorem label?_of_label {taken rest : List Token} {name text text' : String} {line line' : Int}
    (collected : collect ⟨[], [], lastPlace⟩ [] 0
      (taken ++ ⟨.keyword .labelWord, text, line⟩ :: ⟨.identifier name, text', line'⟩ :: rest) =
        .ok final) :
    final.label? name = some taken.length := by
  obtain ⟨next, blocks, further, -⟩ :=
    exists_collect_of_append collected ⟨by simp, by simp⟩
  rw [Nat.zero_add] at further
  simp only [collect, declare] at further
  split at further
  · simp at further
  · next declared =>
    split at declared
    · simp at declared
    · next fresh =>
      simp only [Except.ok.injEq] at declared
      subst declared
      obtain ⟨others, whole⟩ := (grows_collect further).labels
      have earlier : next.labels.find? (·.1 = name) = none := by
        simpa only [label?, Option.isSome_map, Bool.not_eq_true, Option.isSome_eq_false_iff,
          Option.isNone_iff_eq_none] using fresh
      simp [label?, ← whole, List.find?_append, earlier]

private theorem labels_close (destinations : Destinations) (block : Block) (place : Nat)
    (blocks : List (Block × Nat)) :
    (destinations.close block place blocks).1.labels = destinations.labels := by
  unfold close
  split
  · split <;> rfl
  · rfl

/-- Only the word `LABEL` can be refused or adds a label; other tokens lead on to those behind them,
whatever these are. -/
theorem exists_collect_behind {token : Token} (other : token.lexeme ≠ .keyword .labelWord) :
    ∃ next inner, next.labels = destinations.labels ∧ ∀ rest,
      collect destinations blocks place (token :: rest) = collect next inner (place + 1) rest := by
  obtain ⟨lexeme, text, line⟩ := token
  cases lexeme with
  | keyword word =>
      cases word with
      | labelWord => exact absurd rfl other
      | endifWord | endwhileWord =>
          exact ⟨_, _, labels_close destinations _ place blocks, fun _ => rfl⟩
      | _ => exact ⟨destinations, _, rfl, fun _ => rfl⟩
  | _ => exact ⟨destinations, blocks, rfl, fun _ => rfl⟩

theorem exists_collect_cons_eq {token : Token} (other : token.lexeme ≠ .keyword .labelWord)
    (rest : List Token) :
    ∃ next inner, next.labels = destinations.labels ∧
      collect destinations blocks place (token :: rest) = collect next inner (place + 1) rest := by
  obtain ⟨next, inner, same, step⟩ := @exists_collect_behind destinations blocks place token other
  exact ⟨next, inner, same, step rest⟩

/-- If the labels are distinct, the table can be made. -/
theorem exists_collect {tokens : List Token} {before : List Naming}
    (lawful : Naming.Lawful before (Naming.ofTokens tokens))
    (known : ∀ name place, (name, place) ∈ destinations.labels → .declared name ∈ before) :
    ∃ final, collect destinations blocks place tokens = .ok final := by
  fun_induction Naming.ofTokens tokens generalizing destinations blocks place before with
  | case1 word text line name text' line' rest induction =>
      by_cases labels : word = .labelWord
      · subst labels
        have fresh : ¬ (destinations.label? name).isSome := by
          intro found
          obtain ⟨place, member⟩ : ∃ place, (name, place) ∈ destinations.labels := by
            simpa [label?] using found
          exact lawful.1 (known name place member)
        simp only [collect, declare, if_neg fresh]
        refine induction lawful.2 fun other place member => ?_
        rcases List.mem_append.mp member with member | member
        · exact List.mem_append_left _ (known other place member)
        · simp_all [Keyword.naming]
      · have other : (⟨.keyword word, text, line⟩ : Token).lexeme ≠ .keyword .labelWord := by
          simpa using labels
        obtain ⟨next, inner, same, step⟩ :=
          exists_collect_cons_eq other (⟨.identifier name, text', line'⟩ :: rest)
        rw [step]
        refine induction lawful.2 ?_
        rw [same]
        exact fun other place member => List.mem_append_left _ (known other place member)
  | case2 name text line rest induction =>
      refine induction lawful.2 fun other place member => ?_
      exact List.mem_append_left _ (known other place member)
  | case3 token rest notPair notName induction =>
      by_cases labels : token.lexeme = .keyword .labelWord
      · -- no name is behind the word, so nothing is declared
        obtain ⟨lexeme, text, line⟩ := token
        obtain rfl : lexeme = _ := labels
        have nothing : destinations.declare place rest = .ok destinations := by
          unfold declare
          split
          · exact absurd rfl (notPair _ _ _ _ _ _ _ rfl)
          · rfl
        simp only [collect, nothing]
        exact induction lawful known
      · obtain ⟨next, inner, same, step⟩ := exists_collect_cons_eq labels rest
        rw [step]
        refine induction lawful ?_
        rw [same]
        exact known
  | case4 => exact ⟨_, rfl⟩

/-- An end token behind the tokens adds nothing to the table. -/
@[simp] theorem collect_append_of_kind_eof (tokens : List Token) {last : Token}
    (atEnd : last.kind = .eof) :
    collect destinations blocks place (tokens ++ [last]) =
      collect destinations blocks place tokens := by
  obtain ⟨lexeme, text, line⟩ := last
  have shape : lexeme = .eof := by
    cases lexeme <;> simp_all [Token.kind, Lexeme.kind]
  subst shape
  induction tokens generalizing destinations blocks place with
  | nil => rfl
  | cons token rest induction =>
      have declares : ∀ destinations : Destinations,
          destinations.declare place (rest ++ [⟨.eof, text, line⟩]) =
            destinations.declare place rest := by
        intro destinations
        cases rest with
        | nil => rfl
        | cons next rest =>
            obtain ⟨lexeme, text, line⟩ := next
            cases lexeme <;> rfl
      simp only [List.cons_append, collect, induction, declares]

@[simp] theorem collect_append_eof (tokens : List Token) (line : Int) :
    collect destinations blocks place (tokens ++ [Token.eofAt line]) =
      collect destinations blocks place tokens :=
  collect_append_of_kind_eof tokens rfl

end Destinations

end TeenyBasic
