import TeenyBasic.Proofs.LexicalFaults

/-!
# Repeated labels

Labels are collected twice: the table of jumps goes through all tokens and notes every name behind
the word `LABEL`, and the writer of C notes a label when it comes to a line that declares it.  The
table fails at the first declaration that repeats an earlier one (`FirstRepeat`).  The writer has
noted the same labels as the table wherever it stands (`Knows`), so it fails for the same
declaration unless something in front of it makes it stop.
-/

namespace TeenyBasic

/-- At this place a label is declared that is declared in front of it too. -/
def RepeatsAt (tokens : List Token) (place : Nat) : Prop :=
  ∃ name earlier, LabelAt tokens place name ∧ earlier < place ∧ LabelAt tokens earlier name

/-- The diagnostic names the label and the line of the first declaration that repeats one. -/
def FirstRepeat (tokens : List Token) (diagnostic : Diagnostic) : Prop :=
  ∃ place name named, RepeatsAt tokens place ∧ (∀ earlier < place, ¬RepeatsAt tokens earlier) ∧
    LabelAt tokens place name ∧ tokens[place + 1]? = some named ∧
    diagnostic = .repeatedLabel name named.line

theorem LabelAt.name_unique {tokens : List Token} {place : Nat} {name other : String}
    (declared : LabelAt tokens place name) (declared' : LabelAt tokens place other) :
    name = other := by
  obtain ⟨-, named, -, -, there, isName⟩ := declared
  obtain ⟨-, named', -, -, there', isName'⟩ := declared'
  obtain rfl := Option.some.inj (there.symm.trans there')
  exact Lexeme.identifier.inj (isName.symm.trans isName')

/-- Declarations in the first tokens are declarations in all of them. -/
theorem LabelAt.of_append {tokens more : List Token} {place : Nat} {name : String}
    (declared : LabelAt (tokens ++ more) place name) (inside : place + 1 < tokens.length) :
    LabelAt tokens place name := by
  obtain ⟨word, named, first, labels, second, isName⟩ := declared
  rw [List.getElem?_append_left (by omega)] at first
  rw [List.getElem?_append_left inside] at second
  exact ⟨word, named, first, labels, second, isName⟩

namespace Destinations

variable {destinations next final : Destinations} {blocks : List (Block × Nat)} {place : Nat}
  {tokens : List Token}

/-- The labels in the table are the declarations in front of a place, in their order, and none of
them repeats another one. -/
structure Lists (destinations : Destinations) (tokens : List Token) (place : Nat) : Prop where
  mem_iff : ∀ name first,
    (name, first) ∈ destinations.labels ↔ first < place ∧ LabelAt tokens first name
  ordered : destinations.labels.Pairwise fun earlier later => earlier.2 < later.2
  fresh : ∀ earlier < place, ¬RepeatsAt tokens earlier

theorem lists_nil (lastPlace : Int) (tokens : List Token) :
    Lists ⟨[], [], lastPlace⟩ tokens 0 where
  mem_iff := by simp
  ordered := .nil
  fresh := by simp

/-- Nothing is declared at this place. -/
theorem Lists.pass (lists : destinations.Lists tokens place)
    (nothing : ∀ name, ¬LabelAt tokens place name) (same : next.labels = destinations.labels) :
    next.Lists tokens (place + 1) where
  mem_iff := by
    intro name first
    rw [same, lists.mem_iff]
    refine ⟨fun ⟨before, declared⟩ => ⟨by omega, declared⟩, fun ⟨upTo, declared⟩ => ⟨?_, declared⟩⟩
    rcases Nat.lt_succ_iff_lt_or_eq.mp upTo with before | rfl
    · exact before
    · exact absurd declared (nothing name)
  ordered := same ▸ lists.ordered
  fresh := by
    intro earlier upTo
    rcases Nat.lt_succ_iff_lt_or_eq.mp upTo with before | rfl
    · exact lists.fresh earlier before
    · rintro ⟨name, -, declared, -⟩
      exact nothing name declared

/-- A label is declared at this place that was not declared in front of it. -/
theorem Lists.declare (lists : destinations.Lists tokens place) {name : String}
    (declared : LabelAt tokens place name) (unknown : ∀ first, (name, first) ∉ destinations.labels)
    (grown : next.labels = destinations.labels ++ [(name, place)]) :
    next.Lists tokens (place + 1) where
  mem_iff := by
    intro other first
    rw [grown, List.mem_append, List.mem_singleton, Prod.mk.injEq, lists.mem_iff]
    constructor
    · rintro (⟨before, declared'⟩ | ⟨rfl, rfl⟩)
      · exact ⟨by omega, declared'⟩
      · exact ⟨by omega, declared⟩
    · rintro ⟨upTo, declared'⟩
      rcases Nat.lt_succ_iff_lt_or_eq.mp upTo with before | rfl
      · exact .inl ⟨before, declared'⟩
      · exact .inr ⟨declared'.name_unique declared, rfl⟩
  ordered := by
    rw [grown, List.pairwise_append]
    refine ⟨lists.ordered, List.pairwise_singleton _ _, ?_⟩
    rintro ⟨other, first⟩ member _ last
    obtain rfl := List.mem_singleton.mp last
    exact ((lists.mem_iff other first).mp member).1
  fresh := by
    intro earlier upTo
    rcases Nat.lt_succ_iff_lt_or_eq.mp upTo with before | rfl
    · exact lists.fresh earlier before
    · rintro ⟨other, first, declared', before, again⟩
      obtain rfl := declared.name_unique declared'
      exact unknown first ((lists.mem_iff name first).mpr ⟨before, again⟩)

@[simp] theorem label?_isSome_iff (name : String) :
    (destinations.label? name).isSome = true ↔ ∃ first, (name, first) ∈ destinations.labels := by
  rw [label?, Option.isSome_map, List.find?_isSome]
  constructor
  · rintro ⟨⟨other, first⟩, member, same⟩
    obtain rfl : other = name := of_decide_eq_true same
    exact ⟨first, member⟩
  · rintro ⟨first, member⟩
    exact ⟨(name, first), member, decide_eq_true rfl⟩

/-- Noting the word `LABEL` lists the name behind it, or fails for one that is listed already. -/
theorem lists_declare {taken : List Token} {text : String} {line : Int}
    (lists : destinations.Lists (taken ++ ⟨.keyword .labelWord, text, line⟩ :: tokens)
      taken.length) :
    match destinations.declare taken.length tokens with
    | .ok next =>
      next.Lists (taken ++ ⟨.keyword .labelWord, text, line⟩ :: tokens) (taken.length + 1)
    | .error diagnostic =>
      FirstRepeat (taken ++ ⟨.keyword .labelWord, text, line⟩ :: tokens) diagnostic := by
  by_cases named : ∃ name text' line' behind, tokens = ⟨.identifier name, text', line'⟩ :: behind
  · obtain ⟨name, text', line', behind, rfl⟩ := named
    have declared : LabelAt (taken ++ ⟨.keyword .labelWord, text, line⟩ ::
        ⟨.identifier name, text', line'⟩ :: behind) taken.length name :=
      @LabelAt.behind (_ :: _ :: behind) 0 name ⟨_, _, rfl, rfl, rfl, rfl⟩ taken
    cases known : (destinations.label? name).isSome with
    | true =>
      obtain ⟨first, member⟩ := (label?_isSome_iff name).mp known
      obtain ⟨before, again⟩ := (lists.mem_iff name first).mp member
      simp only [Destinations.declare, known, if_true]
      refine ⟨taken.length, name, ⟨.identifier name, text', line'⟩,
        ⟨name, first, declared, before, again⟩, lists.fresh, declared, ?_, rfl⟩
      rw [List.getElem?_append_right (by omega), Nat.add_sub_cancel_left]
      rfl
    | false =>
      simp only [Destinations.declare, known]
      refine lists.declare declared ?_ rfl
      intro first member
      rw [(label?_isSome_iff name).mpr ⟨first, member⟩] at known
      cases known
  · -- no name is behind the word, so nothing is declared
    have nothing : destinations.declare taken.length tokens = .ok destinations := by
      unfold Destinations.declare
      split
      · next name text' line' behind => exact absurd ⟨name, text', line', behind, rfl⟩ named
      · rfl
    rw [nothing]
    refine lists.pass ?_ rfl
    rintro name ⟨-, ⟨_, text', line'⟩, -, -, second, rfl⟩
    rw [List.getElem?_append_right (by omega), Nat.add_sub_cancel_left] at second
    obtain ⟨behind, split⟩ := List.head?_eq_some_iff.mp (List.head?_eq_getElem?.trans second)
    exact named ⟨name, text', line', behind, split⟩

/-- Going through the tokens lists their labels, or stops at the first one that is repeated. -/
theorem lists_collect {taken : List Token}
    (lists : destinations.Lists (taken ++ tokens) taken.length) :
    (∀ final, collect destinations blocks taken.length tokens = .ok final →
      final.Lists (taken ++ tokens) (taken ++ tokens).length) ∧
    ∀ diagnostic, collect destinations blocks taken.length tokens = .error diagnostic →
      FirstRepeat (taken ++ tokens) diagnostic := by
  induction tokens generalizing taken destinations blocks with
  | nil =>
    rw [List.append_nil] at *
    refine ⟨?_, ?_⟩
    · rintro final ⟨⟩
      exact lists
    · rintro diagnostic ⟨⟩
  | cons token rest induction =>
    have shape : taken ++ token :: rest = (taken ++ [token]) ++ rest := by simp
    have length : (taken ++ [token]).length = taken.length + 1 := by simp
    have here : (taken ++ token :: rest)[taken.length]? = some token := by simp
    have onward {next : Destinations} {inner : List (Block × Nat)}
        (further : next.Lists (taken ++ token :: rest) (taken.length + 1)) :
        (∀ final, collect next inner (taken.length + 1) rest = .ok final →
          final.Lists (taken ++ token :: rest) (taken ++ token :: rest).length) ∧
        ∀ diagnostic, collect next inner (taken.length + 1) rest = .error diagnostic →
          FirstRepeat (taken ++ token :: rest) diagnostic := by
      rw [shape, ← length] at further ⊢
      exact induction further
    by_cases labels : token.lexeme = .keyword .labelWord
    · obtain ⟨lexeme, text, line⟩ := token
      obtain rfl : lexeme = _ := labels
      have declared := lists_declare lists
      cases noted : destinations.declare taken.length rest with
      | error diagnostic =>
        rw [noted] at declared
        simp only [collect, noted]
        refine ⟨by rintro final ⟨⟩, ?_⟩
        rintro _ ⟨⟩
        exact declared
      | ok next =>
        rw [noted] at declared
        simp only [collect, noted]
        exact onward declared
    · obtain ⟨next, inner, same, step⟩ :=
        @exists_collect_behind destinations blocks taken.length token labels
      rw [step]
      refine onward (lists.pass ?_ same)
      rintro name ⟨word, -, first, isLabel, -⟩
      obtain rfl := Option.some.inj (here.symm.trans first)
      exact labels (Lexeme.eq_keyword_of_kind isLabel)

theorem lists_ofTokens {lastPlace : Int}
    (collected : collect ⟨[], [], lastPlace⟩ [] 0 tokens = .ok final) :
    final.Lists tokens tokens.length :=
  (@lists_collect _ [] tokens [] (lists_nil lastPlace tokens)).1 final collected

theorem firstRepeat_of_collect {lastPlace : Int} {diagnostic : Diagnostic}
    (refused : collect ⟨[], [], lastPlace⟩ [] 0 tokens = .error diagnostic) :
    FirstRepeat tokens diagnostic :=
  (@lists_collect _ [] tokens [] (lists_nil lastPlace tokens)).2 diagnostic refused

/-- The table is refused if two places declare the same label. -/
theorem refused_iff (tokens : List Token) :
    (∃ diagnostic, ofTokens tokens = .error diagnostic) ↔ ∃ name first second,
      first ≠ second ∧ LabelAt tokens first name ∧ LabelAt tokens second name := by
  constructor
  · rintro ⟨diagnostic, refused⟩
    obtain ⟨place, -, -, ⟨name, earlier, declared, before, again⟩, -⟩ :=
      firstRepeat_of_collect refused
    exact ⟨name, earlier, place, Nat.ne_of_lt before, again, declared⟩
  · rintro ⟨name, first, second, different, declared, declared'⟩
    cases collected : ofTokens tokens with
    | error diagnostic => exact ⟨diagnostic, rfl⟩
    | ok final =>
      have found := (label?_eq_some_iff collected).mpr declared
      rw [(label?_eq_some_iff collected).mpr declared', Option.some.injEq] at found
      exact absurd found.symm different

/-- Tokens without the word `LABEL` change no label, whatever stands behind them. -/
theorem exists_collect_plain {row : List Token}
    (plain : ∀ token ∈ row, token.lexeme ≠ .keyword .labelWord) :
    ∃ next inner, next.labels = destinations.labels ∧ ∀ rest,
      collect destinations blocks place (row ++ rest) =
        collect next inner (place + row.length) rest := by
  induction row generalizing destinations blocks place with
  | nil => exact ⟨destinations, blocks, rfl, fun _ => rfl⟩
  | cons token row induction =>
    obtain ⟨middle, opened, same, step⟩ :=
      @exists_collect_behind destinations blocks place token (plain token List.mem_cons_self)
    obtain ⟨next, inner, same', onward⟩ :=
      @induction middle opened (place + 1) fun other member =>
        plain other (List.mem_cons_of_mem _ member)
    refine ⟨next, inner, same'.trans same, fun rest => ?_⟩
    rw [List.cons_append, step, onward, List.length_cons, Nat.add_assoc, Nat.add_comm 1]

end Destinations

/-- The diagnostic is about something else than a repeated label. -/
def Diagnostic.IsOther (diagnostic : Diagnostic) : Prop :=
  ∀ name line, diagnostic ≠ .repeatedLabel name line

section Readers

variable {α : Type} {last : Int} {tokens : List Token} {diagnostic : Diagnostic}

theorem Ending.isOther_of_expect {kind : Kind}
    (refused : (eof last).expect kind tokens = .error diagnostic) : diagnostic.IsOther := by
  unfold expect at refused
  split at refused
  · cases refused
    rintro name line ⟨⟩
  · split at refused
    · cases refused
    · cases refused
      rintro name line ⟨⟩

theorem Ending.isOther_of_expectName
    (refused : (eof last).expectName tokens = .error diagnostic) : diagnostic.IsOther := by
  unfold expectName at refused
  split at refused
  · cases refused
    rintro name line ⟨⟩
  · split at refused
    · cases refused
    · cases refused
      rintro name line ⟨⟩

private theorem Ending.isOther_of_expectLineEnd
    (refused : (eof last).expectLineEnd tokens = .error diagnostic) : diagnostic.IsOther := by
  unfold expectLineEnd at refused
  split at refused
  · cases refused
  · next unread =>
    cases refused
    exact isOther_of_expect unread

namespace Formula

variable {accepts : Operator → Bool} {meaning : Meaning α}

theorem isOther_of_primaryBehind {sign : α → α}
    (refused : primaryBehind meaning (.eof last) sign tokens = .error diagnostic) :
    diagnostic.IsOther := by
  unfold primaryBehind at refused
  split at refused
  · cases refused
    rintro name line ⟨⟩
  · split at refused
    · cases refused
    · next unread =>
      cases refused
      unfold primary at unread
      split at unread
      · cases unread
      · split at unread
        · cases unread
        · cases unread
          rintro name line ⟨⟩
      · cases unread
        rintro name line ⟨⟩

theorem isOther_of_operand
    (refused : operand meaning (.eof last) tokens = .error diagnostic) : diagnostic.IsOther := by
  unfold operand at refused
  split at refused
  · cases refused
    rintro name line ⟨⟩
  · split at refused
    · exact isOther_of_primaryBehind refused
    · exact isOther_of_primaryBehind refused

private theorem isOther_of_operandsAfter
    (refused : operandsAfter accepts meaning (.eof last) tokens = .error diagnostic) :
    diagnostic.IsOther := by
  fun_induction operandsAfter accepts meaning (.eof last) tokens with
  | case1 => cases refused
  | case2 => cases refused
  | case3 token rest operator found accepted other unread =>
    cases refused
    exact isOther_of_operand unread
  | case4 token rest operator found accepted value after read other unread induction =>
    cases refused
    exact induction unread
  | case5 => cases refused
  | case6 => cases refused

theorem isOther_of_read
    (refused : read accepts meaning (.eof last) tokens = .error diagnostic) :
    diagnostic.IsOther := by
  unfold read at refused
  split at refused
  · next unread =>
    cases refused
    exact isOther_of_operand unread
  · split at refused
    · next unread =>
      cases refused
      exact isOther_of_operandsAfter unread
    · cases refused

private theorem isOther_of_condition
    (refused : condition meaning (.eof last) tokens = .error diagnostic) :
    diagnostic.IsOther := by
  unfold condition at refused
  split at refused
  · next unread =>
    cases refused
    exact isOther_of_read unread
  · split at refused
    · cases refused
    · cases refused
      rw [Ending.refuseFront_eof]
      rintro name line ⟨⟩

end Formula

end Readers

namespace CProgram

variable {α : Type} {precision last : Int} {draft next : Draft} {blocks : List Block}

/-- The labels of the draft stay as they are, and none is found to be repeated. -/
def KeepsLabels (draft : Draft) : Except Diagnostic (Draft × α) → Prop
  | .ok result => result.1.labels = draft.labels
  | .error diagnostic => diagnostic.IsOther

private theorem keepsLabels_printLine (tokens : List Token) :
    KeepsLabels draft (printLine precision (.eof last) draft tokens) := by
  unfold printLine
  split
  · rfl
  · cases read : Formula.expression draft.meaning (.eof last) tokens with
    | error diagnostic => exact Formula.isOther_of_read read
    | ok result => rfl

theorem keepsLabels_openLine (block : Block) (tokens : List Token) :
    KeepsLabels draft (openLine block (.eof last) draft tokens) := by
  unfold openLine
  cases read : Formula.condition draft.meaning (.eof last) tokens with
  | error diagnostic => exact Formula.isOther_of_condition read
  | ok result =>
    dsimp only
    cases separated : (Ending.eof last).expect (.keyword block.separator) result.2 with
    | error diagnostic => exact Ending.isOther_of_expect separated
    | ok rest => rfl

private theorem keepsLabels_gotoLine (tokens : List Token) :
    KeepsLabels draft (gotoLine (.eof last) draft tokens) := by
  unfold gotoLine
  cases named : (Ending.eof last).expectName tokens with
  | error diagnostic => exact Ending.isOther_of_expectName named
  | ok result => exact Draft.labels_noteJump draft result.1 result.2.1

private theorem keepsLabels_inputLine (tokens : List Token) :
    KeepsLabels draft (inputLine (.eof last) draft tokens) := by
  unfold inputLine
  cases named : (Ending.eof last).expectName tokens with
  | error diagnostic => exact Ending.isOther_of_expectName named
  | ok result => exact Draft.labels_declare draft result.1

private theorem keepsLabels_letLine (tokens : List Token) :
    KeepsLabels draft (letLine (.eof last) draft tokens) := by
  unfold letLine
  cases named : (Ending.eof last).expectName tokens with
  | error diagnostic => exact Ending.isOther_of_expectName named
  | ok result =>
    dsimp only
    cases assigned : (Ending.eof last).expect .assign result.2.2 with
    | error diagnostic => exact Ending.isOther_of_expect assigned
    | ok rest =>
      dsimp only
      cases read : Formula.expression (draft.declare result.1).meaning (.eof last) rest with
      | error diagnostic => exact Formula.isOther_of_read read
      | ok value => exact Draft.labels_declare draft result.1

theorem keepsLabels_closeLine (block : Block) (token : Token) (rest : List Token) :
    KeepsLabels draft (closeLine block draft blocks token rest) := by
  unfold closeLine
  split
  · split
    · rfl
    · rintro name line ⟨⟩
  · rintro name line ⟨⟩

theorem KeepsLabels.inside {result : Except Diagnostic (Draft × List Token)}
    (keeps : KeepsLabels draft result) : KeepsLabels draft (inside blocks result) := by
  cases result with
  | error diagnostic => exact keeps
  | ok result => exact keeps

/-- Only a line that declares a label notes one. -/
theorem keepsLabels_line {token : Token} (other : token.lexeme ≠ .keyword .labelWord)
    (rest : List Token) :
    KeepsLabels draft (line precision (.eof last) draft blocks token rest) := by
  unfold line
  split
  · exact (keepsLabels_printLine rest).inside
  · exact (keepsLabels_openLine .conditional rest).inside
  · exact (keepsLabels_openLine .loop rest).inside
  · exact keepsLabels_closeLine .conditional token rest
  · exact keepsLabels_closeLine .loop token rest
  · next labels => exact absurd labels other
  · exact (keepsLabels_gotoLine rest).inside
  · exact (keepsLabels_letLine rest).inside
  · exact (keepsLabels_inputLine rest).inside
  · rintro name line ⟨⟩

/-- The draft has noted the labels that are in the table. -/
def Knows (draft : Draft) (destinations : Destinations) : Prop :=
  ∀ name, name ∈ draft.labels ↔ ∃ first, (name, first) ∈ destinations.labels

/-- The table can be made for the tokens, from every table that the draft knows. -/
def Collects (draft : Draft) (tokens : List Token) : Prop :=
  ∀ destinations blocks place, Knows draft destinations →
    ∃ final, Destinations.collect destinations blocks place tokens = .ok final

/-- Going through the tokens leads from every table that one draft knows to a table that the other
draft knows. -/
def Carries (draft : Draft) (tokens : List Token) (next : Draft) : Prop :=
  ∀ destinations blocks place, Knows draft destinations →
    ∃ further inner, Knows next further ∧ ∀ rest,
      Destinations.collect destinations blocks place (tokens ++ rest) =
        Destinations.collect further inner (place + tokens.length) rest

theorem Carries.collects {tokens : List Token} (carries : Carries draft tokens next) :
    Collects draft tokens := by
  intro destinations blocks place knows
  obtain ⟨further, inner, -, onward⟩ := carries destinations blocks place knows
  have reached := onward []
  rw [List.append_nil] at reached
  exact ⟨further, reached⟩

theorem Collects.behind {tokens rest : List Token} (collects : Collects next rest)
    (carries : Carries draft tokens next) : Collects draft (tokens ++ rest) := by
  intro destinations blocks place knows
  obtain ⟨further, inner, knows', onward⟩ := carries destinations blocks place knows
  rw [onward]
  exact collects further inner _ knows'

theorem Carries.trans {middle : Draft} {tokens more : List Token}
    (first : Carries draft tokens middle) (second : Carries middle more next) :
    Carries draft (tokens ++ more) next := by
  intro destinations blocks place knows
  obtain ⟨between, opened, knows', onward⟩ := first destinations blocks place knows
  obtain ⟨further, inner, knows'', onward'⟩ := second between opened _ knows'
  refine ⟨further, inner, knows'', fun rest => ?_⟩
  rw [List.append_assoc, onward, onward', List.length_append, Nat.add_assoc]

theorem carries_plain {row : List Token}
    (plain : ∀ token ∈ row, token.lexeme ≠ .keyword .labelWord)
    (same : next.labels = draft.labels) : Carries draft row next := by
  intro destinations blocks place knows
  obtain ⟨further, inner, labels, onward⟩ :=
    @Destinations.exists_collect_plain destinations blocks place row plain
  refine ⟨further, inner, ?_, onward⟩
  intro name
  rw [same, labels]
  exact knows name

private theorem carries_label {name : String} (fresh : name ∉ draft.labels)
    (grown : next.labels = name :: draft.labels) (text text' : String) (line line' : Int) :
    Carries draft [⟨.keyword .labelWord, text, line⟩, ⟨.identifier name, text', line'⟩] next := by
  intro destinations blocks place knows
  have unknown : (destinations.label? name).isSome = false := by
    cases known : (destinations.label? name).isSome with
    | false => rfl
    | true =>
      exact absurd ((knows name).mpr ((Destinations.label?_isSome_iff name).mp known)) fresh
  refine ⟨{ destinations with labels := destinations.labels ++ [(name, place)] }, blocks, ?_, ?_⟩
  · intro other
    rw [grown, List.mem_cons, knows other]
    simp only [List.mem_append, List.mem_singleton, Prod.mk.injEq, exists_or, exists_and_left,
      exists_eq, and_true]
    exact or_comm
  · intro rest
    simp only [List.cons_append, List.nil_append, Destinations.collect, Destinations.declare,
      unknown]
    rfl

/-- The tables from a word `LABEL` on are refused if the draft has noted the name behind it. -/
theorem collect_known {name : String} (known : name ∈ draft.labels) {destinations : Destinations}
    (knows : Knows draft destinations) (blocks : List (Block × Nat)) (place : Nat)
    (text text' : String) (line line' : Int) (rest : List Token) :
    Destinations.collect destinations blocks place
      (⟨.keyword .labelWord, text, line⟩ :: ⟨.identifier name, text', line'⟩ :: rest) =
        .error (.repeatedLabel name line') := by
  have found : (destinations.label? name).isSome = true :=
    (Destinations.label?_isSome_iff name).mpr ((knows name).mp known)
  simp only [Destinations.collect, Destinations.declare, found, if_true]

/-- What becomes of a program, and what the table says of its tokens then. -/
inductive Outcome {β : Type} (last : Int) (draft : Draft) (tokens : List Token) :
    Except Diagnostic β → Prop
  | written {result} : Collects draft tokens → Outcome last draft tokens (.ok result)
  /-- Both find the same label repeated. -/
  | repeated {name line} :
      (∀ destinations blocks place, Knows draft destinations →
        Destinations.collect destinations blocks place tokens =
          .error (.repeatedLabel name line)) →
      Outcome last draft tokens (.error (.repeatedLabel name line))
  /-- The program is refused for a token, and no label is repeated in front of it. -/
  | stuck {diagnostic taken behind} : diagnostic.IsOther → tokens = taken ++ behind →
      diagnostic.About (frontOf last behind) → Collects draft taken →
      Outcome last draft tokens (.error diagnostic)
  | dangling {name line} : Collects draft tokens →
      Outcome last draft tokens (.error (.undeclaredLabel name line))

theorem Outcome.behind {β : Type} {result : Except Diagnostic β} {tokens rest : List Token}
    (outcome : Outcome last next rest result) (carries : Carries draft tokens next) :
    Outcome last draft (tokens ++ rest) result := by
  cases outcome with
  | written collects => exact .written (collects.behind carries)
  | repeated refused =>
    refine .repeated fun destinations blocks place knows => ?_
    obtain ⟨further, inner, knows', onward⟩ := carries destinations blocks place knows
    rw [onward]
    exact refused further inner _ knows'
  | @stuck diagnostic taken behind other split about collects =>
    exact .stuck other (by rw [split, List.append_assoc]) about (collects.behind carries)
  | dangling collects => exact .dangling (collects.behind carries)

/-- The word `LABEL` stands only at the beginning of a line. -/
theorem Turns.ne_labelWord {after : List Block} {taken : List Token}
    (turns : Turns blocks after taken) :
    ∃ first others, taken = first :: others ∧
      ∀ token ∈ others, token.lexeme ≠ .keyword .labelWord := by
  cases turns with
  | stays whole =>
    obtain ⟨statement, derived⟩ := whole []
    rw [List.append_nil] at derived
    obtain ⟨word, text, line, tail, rfl, -, passed, rfl, plain⟩ := derived.passes
    refine ⟨_, _, rfl, fun token member => ?_⟩
    rw [List.append_nil] at member
    exact plain token member _
  | @opens block _ _ whole =>
    obtain ⟨condition, text, line, text', line', inner, split, derived⟩ := whole []
    rw [List.append_nil] at split
    obtain ⟨passed, rfl, plain⟩ := derived.passes
    refine ⟨_, _, split, fun token member => ?_⟩
    rcases List.mem_append.mp member with member | member
    · exact plain token member _
    · obtain rfl := List.mem_singleton.mp member
      cases block <;> rintro ⟨⟩
  | closes => exact ⟨_, [], rfl, by rintro token ⟨⟩⟩

theorem ne_labelWord_of_turns {after : List Block} {token : Token}
    {taken more rest behind : List Token} (other : token.lexeme ≠ .keyword .labelWord)
    (turns : Turns blocks after (taken ++ more)) (split : token :: rest = taken ++ behind) :
    ∀ member ∈ taken, member.lexeme ≠ .keyword .labelWord := by
  obtain ⟨first, others, shape, plain⟩ := turns.ne_labelWord
  cases taken with
  | nil => rintro _ ⟨⟩
  | cons front taken =>
    obtain ⟨rfl, -⟩ := List.cons.inj split
    obtain ⟨-, rfl⟩ := List.cons.inj shape
    intro member inside
    rcases List.mem_cons.mp inside with rfl | inside
    · exact other
    · exact plain member (List.mem_append_left _ inside)

theorem carries_line {inner : List Block} {token : Token} {rest middle : List Token}
    (written : line precision (.eof last) draft blocks token rest = .ok (next, inner, middle)) :
    ∃ row, token :: rest = row ++ middle ∧ Carries draft row next := by
  by_cases labels : token.lexeme = .keyword .labelWord
  · obtain ⟨lexeme, text, line⟩ := token
    obtain rfl : lexeme = _ := labels
    have declared : labelLine (.eof last) draft rest = .ok (next, middle) := of_inside_eq_ok written
    unfold labelLine at declared
    cases named : (Ending.eof last).expectName rest with
    | error diagnostic => simp [named] at declared
    | ok result =>
      obtain ⟨name, line', behind⟩ := result
      obtain ⟨text', rfl⟩ := Ending.exists_identifier_of_expectName named
      simp only [named, Ending.reachable] at declared
      split at declared
      · cases declared
      · next fresh =>
        cases declared
        exact ⟨[_, _], rfl, carries_label (by simpa using fresh) rfl text text' line line'⟩
  · have read : row precision last draft blocks (token :: rest) = .ok ((next, inner), middle) := by
      simp only [row, written]
    obtain ⟨taken, split, turns, -⟩ := (peeks_row _).ok _ _ read
    have plain := @ne_labelWord_of_turns blocks inner token taken [] rest middle labels
      (by rwa [List.append_nil]) split
    have keeps := @keepsLabels_line precision last draft blocks token labels rest
    rw [written] at keeps
    exact ⟨taken, split, carries_plain plain keeps⟩

private theorem outcome_line {β : Type} {token : Token} {rest : List Token}
    {diagnostic : Diagnostic}
    (refused : line precision (.eof last) draft blocks token rest = .error diagnostic) :
    Outcome last draft (token :: rest) (.error diagnostic : Except Diagnostic β) := by
  by_cases labels : token.lexeme = .keyword .labelWord
  · obtain ⟨lexeme, text, line⟩ := token
    obtain rfl : lexeme = _ := labels
    cases named : (Ending.eof last).expectName rest with
    | error other =>
      have same : other = diagnostic := by
        simp only [CProgram.line, labelLine, named, inside, Except.error.injEq] at refused
        exact refused
      subst same
      refine .stuck (Ending.isOther_of_expectName named) (List.singleton_append).symm
        (Ending.about_of_expectName named) ?_
      exact fun destinations _ _ _ => ⟨destinations, rfl⟩
    | ok result =>
      obtain ⟨name, line', behind⟩ := result
      obtain ⟨text', rfl⟩ := Ending.exists_identifier_of_expectName named
      simp only [CProgram.line, labelLine, named, Ending.reachable] at refused
      split at refused
      · next known =>
        cases refused
        refine .repeated fun destinations blocks place knows => ?_
        exact collect_known (by simpa using known) knows blocks place text text' line line' behind
      · cases refused
  · have read : row precision last draft blocks (token :: rest) = .error diagnostic := by
      simp only [row, refused]
    obtain ⟨taken, behind, split, about, ⟨after, more, turns⟩, -⟩ := (peeks_row _).error _ read
    have plain := ne_labelWord_of_turns labels turns split
    have keeps := @keepsLabels_line precision last draft blocks token labels rest
    rw [refused] at keeps
    exact .stuck keeps split about (carries_plain plain (Eq.refl draft.labels)).collects

private theorem carries_wholeLine {inner : List Block} {token : Token} {rest behind : List Token}
    (written : wholeLine precision (.eof last) draft blocks token rest =
      .ok (next, inner, behind)) :
    ∃ row, token :: rest = row ++ behind ∧ Carries draft row next := by
  obtain ⟨middle, written, ends⟩ := of_wholeLine_eq_ok written
  obtain ⟨row, split, carries⟩ := carries_line written
  obtain ⟨passed, rfl, plain⟩ := ends.passes
  refine ⟨row ++ passed, by rw [split, List.append_assoc], carries.trans ?_⟩
  exact carries_plain (fun token member => plain token member _) rfl

private theorem outcome_wholeLine {β : Type} {token : Token} {rest : List Token}
    {diagnostic : Diagnostic}
    (refused : wholeLine precision (.eof last) draft blocks token rest = .error diagnostic) :
    Outcome last draft (token :: rest) (.error diagnostic : Except Diagnostic β) := by
  unfold wholeLine at refused
  split at refused
  · next unwritten =>
    cases refused
    exact outcome_line unwritten
  · next next inner middle written =>
    split at refused
    · next unended =>
      cases refused
      obtain ⟨row, split, carries⟩ := carries_line written
      exact .stuck (Ending.isOther_of_expectLineEnd unended) split
        (Ending.about_of_expectLineEnd unended) carries.collects
    · cases refused

/-- The writer of C and the table of jumps agree on repeated labels, from any place where the
writer has noted the labels of the table. -/
theorem outcome_lines (tokens : List Token) :
    Outcome last draft tokens (lines precision (.eof last) draft blocks tokens) := by
  have nothing (draft : Draft) : Collects draft [] := fun destinations _ _ _ => ⟨destinations, rfl⟩
  fun_induction lines precision (.eof last) draft blocks tokens with
  | case1 => contradiction
  | case2 draft blocks line atEnd closed =>
    cases finished : finish draft with
    | ok code => exact .written (nothing draft)
    | error diagnostic =>
      obtain ⟨name, line', rfl⟩ := exists_undeclared_of_finish finished
      exact .dangling (nothing draft)
  | case3 draft blocks line atEnd opened =>
    cases atEnd
    refine @Outcome.stuck _ _ _ _ _ [] [] ?_ rfl .invalidStatement (nothing draft)
    rintro name line ⟨⟩
  | case4 draft blocks token rest diagnostic unwritten => exact outcome_wholeLine unwritten
  | case5 draft blocks token rest next inner behind written induction =>
    obtain ⟨row, split, carries⟩ := carries_wholeLine written
    rw [split]
    exact induction.behind carries

end CProgram

namespace Lexer

private theorem line_of_head?_scan {cursor : Cursor} {token : Token}
    (front : (scan cursor).tokens.head? = some token) : token.line = cursor.line := by
  fun_induction scan cursor with
  | case1 => cases front
  | case2 => cases front
  | case3 cursor first after read =>
    cases front
    exact (line_of_next read).1

/-- A token stands on the line of the one in front of it, unless that one ends the line. -/
theorem line_eq_of_adjacent {cursor : Cursor} {place : Nat} {word named : Token}
    (first : (scan cursor).tokens[place]? = some word)
    (second : (scan cursor).tokens[place + 1]? = some named) (inside : word.kind ≠ .newline) :
    named.line = word.line := by
  induction cursor using scan.induct generalizing place with
  | case1 cursor diagnostic after refused =>
    rw [scan_of_next_error refused] at first
    cases first
  | case2 cursor token after read ended =>
    rw [scan_of_next_eof read ended] at first
    cases first
  | case3 cursor front after read notEnd induction =>
    rw [scan_of_next read notEnd] at first second
    cases place with
    | zero =>
      cases first
      rcases Lexical.next_cases read with ⟨rfl, -⟩ | ⟨gap, raw, -, -, spelled, -, same, moved⟩
      · exact absurd rfl notEnd
      · have noFeed : '\n' ∉ raw := by
          refine spelled.not_newline ?_
          intro isNewline
          exact inside (by rw [Token.kind, isNewline]; rfl)
        rw [line_of_head?_scan (List.head?_eq_getElem?.trans second), moved,
          List.count_eq_zero_of_not_mem noFeed, same]
        rfl
    | succ place => exact induction first second

private theorem pairwise_line_of_tokens {source : String} {tokens : List Token}
    (tokenized : Lexer.tokens source = .ok tokens) :
    tokens.Pairwise fun earlier later => earlier.line ≤ later.line := by
  obtain ⟨line, ends, rfl⟩ := Scan.exists_eof_of_complete tokenized
  rw [List.pairwise_append]
  refine ⟨pairwise_line_scan _, List.pairwise_singleton _ _, ?_⟩
  intro token member _ last
  obtain rfl := List.mem_singleton.mp last
  have bound := (line_of_mem_scan member).2
  rw [ends] at bound
  exact bound

end Lexer

theorem Program.load_eq_names_iff (body : List Token) (last : Int)
    (diagnostic : Diagnostic) :
    Program.load (body ++ [Token.eofAt last]) = .error (.names diagnostic) ↔
      Destinations.ofTokens (body ++ [Token.eofAt last]) = .error diagnostic := by
  have atEnd : (Token.eofAt last).kind = .eof := rfl
  simp only [Program.load, List.getLast?_concat, atEnd, if_true, List.dropLast_concat, assemble]
  cases Destinations.ofTokens (body ++ [Token.eofAt last]) with
  | ok destinations => simp
  | error other => simp

/-- The first repeated label stands behind tokens for which the table can be made. -/
theorem FirstRepeat.exists_mem {taken behind : List Token} {diagnostic : Diagnostic}
    (repeats : FirstRepeat (taken ++ behind) diagnostic) {lastPlace : Int}
    {final : Destinations}
    (collected : Destinations.collect ⟨[], [], lastPlace⟩ [] 0 taken = .ok final) :
    ∃ token ∈ behind, diagnostic.line = token.line := by
  obtain ⟨place, name, named, ⟨other, earlier, declared, before, again⟩, -, -, there, rfl⟩ :=
    repeats
  by_cases inside : place + 1 < taken.length
  · have lists := Destinations.lists_ofTokens collected
    refine absurd ?_ (lists.fresh place (by omega))
    exact ⟨other, earlier, declared.of_append inside, before, again.of_append (by omega)⟩
  · rw [List.getElem?_append_right (by omega)] at there
    exact ⟨named, List.mem_of_getElem? there, rfl⟩

namespace CProgram

theorem knows_start {destinations : Destinations} (empty : destinations.labels = []) :
    Knows Draft.start destinations := by
  intro name
  rw [empty]
  exact ⟨by rintro ⟨⟩, by rintro ⟨_, ⟨⟩⟩⟩

/-- What becomes of a text, and what the table says of its tokens then. -/
theorem outcome_ofSource {precision last : Int} {source : String} {body : List Token}
    (tokenized : Lexer.tokens source = .ok (body ++ [Token.eofAt last])) :
    Outcome last Draft.start body (ofSource precision source) := by
  have newlines : ∀ token ∈ body.takeWhile Token.isNewline,
      token.lexeme ≠ .keyword .labelWord := by
    intro token member isLabel
    have isNewline := List.all_eq_true.mp
      (List.all_takeWhile (p := Token.isNewline) (l := body)) token member
    rw [Token.isNewline, Token.kind, isLabel] at isNewline
    cases isNewline
  have outcome :=
    @outcome_lines precision last Draft.start [] (body.dropWhile Token.isNewline)
  have whole := outcome.behind
    (carries_plain newlines (Eq.refl Draft.start.labels))
  rwa [List.takeWhile_append_dropWhile, ← ofSource_eq_lines tokenized] at whole

/-- A refusal that is about something else comes no later than the first repeated label. -/
theorem refused_of_repeat {precision last : Int} {source : String} {body : List Token}
    {diagnostic : Diagnostic}
    (tokenized : Lexer.tokens source = .ok (body ++ [Token.eofAt last]))
    (repeats : Destinations.ofTokens (body ++ [Token.eofAt last]) = .error diagnostic) :
    ∃ refusal, ofSource precision source = .error refusal ∧
      (refusal = diagnostic ∨ refusal.line ≤ diagnostic.line ∧
        ((∃ fault, refusal.fault = .grammar fault) ∨ ∃ fault, refusal.fault = .naming fault)) := by
  have first := Destinations.firstRepeat_of_collect repeats
  rw [Destinations.ofTokens, Destinations.collect_append_eof] at repeats
  have outcome := @outcome_ofSource precision last source body tokenized
  generalize ofSource precision source = result at outcome
  cases outcome with
  | written collects | dangling collects =>
    -- the table could be made
    obtain ⟨final, collected⟩ :=
      collects ⟨[], [], (body ++ [Token.eofAt last]).length - 1⟩ [] 0 (knows_start rfl)
    cases repeats.symm.trans collected
  | repeated refused =>
    have same := (refused _ [] 0 (knows_start rfl)).symm.trans repeats
    exact ⟨_, rfl, .inl (Except.error.inj same)⟩
  | @stuck refusal taken behind other split about collects =>
    subst split
    obtain ⟨final, collected⟩ := collects ⟨[], [], 0⟩ [] 0 (knows_start rfl)
    rw [List.append_assoc] at first tokenized
    obtain ⟨token, member, line_eq⟩ := first.exists_mem collected
    refine ⟨refusal, rfl, .inr ⟨?_, about.grammar_or_naming⟩⟩
    have ordered := (List.pairwise_append.mp (Lexer.pairwise_line_of_tokens tokenized)).2.1
    obtain ⟨tail, shape⟩ := List.head?_eq_some_iff.mp (frontOf_eq_head? last behind)
    rw [shape] at ordered member
    rw [about.line_eq, line_eq]
    rcases List.mem_cons.mp member with rfl | member
    · exact Int.le_refl _
    · exact List.rel_of_pairwise_cons ordered member

namespace Sample

/-- The second line repeats the label of the first one. -/
def repeating : String :=
  "LABEL a\nLABEL a"

def repeatingTokens : List Token := [
  ⟨.keyword .labelWord, "LABEL", 1⟩, ⟨.identifier "a", "a", 1⟩, ⟨.newline, "\n", 1⟩,
  ⟨.keyword .labelWord, "LABEL", 2⟩, ⟨.identifier "a", "a", 2⟩, ⟨.newline, "\n", 2⟩]

set_option maxRecDepth 10000 in
theorem tokens_repeating :
    Lexer.tokens repeating = .ok (repeatingTokens ++ [Token.eofAt 3]) := by
  cbv

private theorem ofSource_repeating (precision : Int) :
    ofSource precision repeating = .error (.repeatedLabel "a" 2) := by
  rw [ofSource_eq_lines tokens_repeating]
  exact (lines_cons ..).trans (lines_cons ..)

end Sample

end CProgram

/-- The table of jumps is refused exactly if two places declare the same label, and for the first
one that repeats another; otherwise it lists the declarations in their order.  A text that is put
into C is refused for a repeated label only if the table is refused for the same one, and if the
table is refused, so is the text: for the same label, or for something not behind it. -/
theorem repeated_labels_agree :
    (∀ tokens,
      ((∃ diagnostic, Destinations.ofTokens tokens = .error diagnostic) ↔
        ∃ name first second, first ≠ second ∧ LabelAt tokens first name ∧
          LabelAt tokens second name) ∧
      (∀ diagnostic, Destinations.ofTokens tokens = .error diagnostic →
        FirstRepeat tokens diagnostic) ∧
      ∀ destinations, Destinations.ofTokens tokens = .ok destinations →
        (destinations.labels.Pairwise fun earlier later => earlier.2 < later.2) ∧
        ∀ name place, (name, place) ∈ destinations.labels ↔ LabelAt tokens place name) ∧
    ∀ precision source tokens, Lexer.tokens source = .ok tokens →
      (∀ place name word named, LabelAt tokens place name → tokens[place]? = some word →
        tokens[place + 1]? = some named → named.line = word.line) ∧
      (∀ name line, CProgram.ofSource precision source = .error (.repeatedLabel name line) →
        Program.load tokens = .error (.names (.repeatedLabel name line))) ∧
      ∀ diagnostic, Program.load tokens = .error (.names diagnostic) →
        ∃ refusal, CProgram.ofSource precision source = .error refusal ∧
          (refusal = diagnostic ∨ refusal.line ≤ diagnostic.line ∧
            ((∃ fault, refusal.fault = .grammar fault) ∨
              ∃ fault, refusal.fault = .naming fault)) := by
  refine ⟨?_, ?_⟩
  · intro tokens
    refine ⟨Destinations.refused_iff tokens, fun _ => Destinations.firstRepeat_of_collect, ?_⟩
    intro destinations collected
    have lists := Destinations.lists_ofTokens collected
    refine ⟨lists.ordered, fun name place => (lists.mem_iff name place).trans ?_⟩
    refine ⟨fun ⟨_, declared⟩ => declared, fun declared => ⟨?_, declared⟩⟩
    obtain ⟨_, _, there, -⟩ := declared
    exact (List.getElem?_eq_some_iff.mp there).1
  · intro precision source tokens tokenized
    obtain ⟨body, last, rfl⟩ := Lexer.exists_eofAt_of_tokens tokenized
    refine ⟨?_, ?_, ?_⟩
    · intro place name word named declared first second
      obtain ⟨word', named', there, isLabel, there', -⟩ := (labelAt_append_iff rfl).mp declared
      have inside := (List.getElem?_eq_some_iff.mp there').1
      rw [List.getElem?_append_left (by omega), there, Option.some.injEq] at first
      rw [List.getElem?_append_left inside, there', Option.some.injEq] at second
      subst first second
      obtain ⟨scanned, -⟩ := Lexer.scan_of_tokens tokenized
      rw [← scanned] at there there'
      exact Lexer.line_eq_of_adjacent there there' (by rw [isLabel]; rintro ⟨⟩)
    · intro name line refused
      rw [Program.load_eq_names_iff, Destinations.ofTokens, Destinations.collect_append_eof]
      have outcome := @CProgram.outcome_ofSource precision last source body tokenized
      rw [refused] at outcome
      cases outcome with
      | repeated refused => exact refused _ [] 0 (CProgram.knows_start rfl)
      | stuck other => exact absurd rfl (other name line)
    · intro diagnostic refused
      rw [Program.load_eq_names_iff] at refused
      exact CProgram.refused_of_repeat tokenized refused

/-- Both find the label of the second line repeated, and the first list of tokens declares one
label. -/
theorem repeated_labels_agree_repeating :
    ([("on", 5)].Pairwise fun (earlier later : String × Nat) => earlier.2 < later.2) ∧
    FirstRepeat (CProgram.Sample.repeatingTokens ++ [Token.eofAt 3]) (.repeatedLabel "a" 2) ∧
    Program.load (CProgram.Sample.repeatingTokens ++ [Token.eofAt 3]) =
      .error (.names (.repeatedLabel "a" 2)) ∧
    ∃ refusal, CProgram.ofSource 2 CProgram.Sample.repeating = .error refusal ∧
      (refusal = .repeatedLabel "a" 2 ∨ refusal.line ≤ 2 ∧
        ((∃ fault, refusal.fault = .grammar fault) ∨
          ∃ fault, refusal.fault = .naming fault)) := by
  have listed : Destinations.ofTokens Machine.Sample.strandedTokens =
      .ok ⟨[], [("on", 5)], 11⟩ := rfl
  have found : Destinations.ofTokens (CProgram.Sample.repeatingTokens ++ [Token.eofAt 3]) =
      .error (.repeatedLabel "a" 2) := rfl
  obtain ⟨-, named, refused⟩ :=
    repeated_labels_agree.2 2 _ _ CProgram.Sample.tokens_repeating
  have loaded := named "a" 2 (CProgram.Sample.ofSource_repeating 2)
  exact ⟨((repeated_labels_agree.1 _).2.2 _ listed).1,
    (repeated_labels_agree.1 _).2.1 _ found, loaded, refused _ loaded⟩

end TeenyBasic
