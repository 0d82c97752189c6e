import TeenyBasic.Proofs.OneTokenAhead
import TeenyBasic.Proofs.RespacedRuns

/-!
# The cursor on arbitrary tokens

A machine can be given any tokens that end with an end token: ill-nested blocks, lines broken off,
further end tokens in the middle.  Its cursor moves by the table of jumps, so what keeps it inside
the program is what the table holds: a block leads forward to a closing word of its own kind
(`exists_closer_of_closer?`), a label to its declaration (`label?_eq_some_iff`), and a block that
was entered back to its first word.  Each line keeps this (`Safe.step`), and a line that fails does
so because of the token that it has come to (`notes_line`).
-/

namespace TeenyBasic

/-- The label is declared at this place: the word `LABEL` stands there, and the name behind it. -/
def LabelAt (tokens : List Token) (place : Nat) (name : String) : Prop :=
  ∃ word named, tokens[place]? = some word ∧ word.kind = .keyword .labelWord ∧
    tokens[place + 1]? = some named ∧ named.lexeme = .identifier name

theorem LabelAt.cons {tokens : List Token} {place : Nat} {name : String}
    (declared : LabelAt tokens place name) (token : Token) :
    LabelAt (token :: tokens) (place + 1) name :=
  declared

theorem LabelAt.behind {tokens : List Token} {place : Nat} {name : String}
    (declared : LabelAt tokens place name) (front : List Token) :
    LabelAt (front ++ tokens) (front.length + place) name := by
  obtain ⟨word, named, first, labels, second, isName⟩ := declared
  refine ⟨word, named, ?_, labels, ?_, isName⟩
  · rw [List.getElem?_append_right (by omega), Nat.add_sub_cancel_left, first]
  · rw [Nat.add_assoc, List.getElem?_append_right (by omega), Nat.add_sub_cancel_left, second]

@[simp] theorem labelAt_append_iff {tokens : List Token} {last : Token} (atEnd : last.kind = .eof)
    {place : Nat} {name : String} :
    LabelAt (tokens ++ [last]) place name ↔ LabelAt tokens place name := by
  constructor
  · rintro ⟨word, named, first, labels, second, isName⟩
    have bound : place + 1 < tokens.length := by
      apply Decidable.byContradiction
      intro outside
      rw [List.getElem?_append_right (by omega), List.getElem?_singleton] at second
      split at second
      · obtain rfl := Option.some.inj second
        simp [Token.kind, isName, Lexeme.kind] at atEnd
      · simp at second
    rw [List.getElem?_append_left (by omega)] at first
    rw [List.getElem?_append_left bound] at second
    exact ⟨word, named, first, labels, second, isName⟩
  · rintro ⟨word, named, first, labels, second, isName⟩
    obtain ⟨bound, -⟩ := List.getElem?_eq_some_iff.mp second
    refine ⟨word, named, ?_, labels, ?_, isName⟩
    · rw [List.getElem?_append_left (by omega), first]
    · rw [List.getElem?_append_left bound, second]

namespace Destinations

variable {destinations final : Destinations} {blocks : List (Block × Nat)} {place : Nat}
  {tokens : List Token}

theorem declare_cases {next : Destinations} (text : String) (line : Int)
    (declared : destinations.declare place tokens = .ok next) :
    next.labels = destinations.labels ∨ ∃ name,
      LabelAt (⟨.keyword .labelWord, text, line⟩ :: tokens) 0 name ∧
      next.labels = destinations.labels ++ [(name, place)] := by
  unfold declare at declared
  split at declared
  · next name text' line' rest =>
    split at declared
    · simp at declared
    · simp only [Except.ok.injEq] at declared
      subst declared
      exact .inr ⟨name, ⟨_, _, rfl, rfl, rfl, rfl⟩, rfl⟩
  · simp only [Except.ok.injEq] at declared
    subst declared
    exact .inl rfl

/-- Every label in the table stands where the table says. -/
theorem labelAt_of_mem {name : String} {found : Nat}
    (collected : collect destinations blocks place tokens = .ok final)
    (member : (name, found) ∈ final.labels) :
    (name, found) ∈ destinations.labels ∨
      ∃ count, found = place + count ∧ LabelAt tokens count name := by
  induction tokens generalizing destinations blocks place with
  | nil =>
    simp only [collect, Except.ok.injEq] at collected
    subst collected
    exact .inl member
  | cons token rest induction =>
    have onward {next : Destinations} {inner : List (Block × Nat)}
        (further : collect next inner (place + 1) rest = .ok final) :
        (name, found) ∈ next.labels ∨
          ∃ count, found = place + count ∧ LabelAt (token :: rest) count name := by
      rcases induction further with known | ⟨count, rfl, declared⟩
      · exact .inl known
      · exact .inr ⟨count + 1, by omega, declared.cons token⟩
    by_cases labels : token.lexeme = .keyword .labelWord
    · obtain ⟨lexeme, text, line⟩ := token
      obtain rfl : lexeme = _ := labels
      simp only [collect] at collected
      split at collected
      · simp at collected
      · next next declared =>
        rcases onward collected with known | later
        · rcases declare_cases text line declared with same | ⟨fresh, labelled, grown⟩
          · exact .inl (same ▸ known)
          · rw [grown, List.mem_append, List.mem_singleton, Prod.mk.injEq] at known
            rcases known with known | ⟨rfl, rfl⟩
            · exact .inl known
            · exact .inr ⟨0, rfl, labelled⟩
        · exact .inr later
    · obtain ⟨next, inner, same, step⟩ := exists_collect_cons_eq labels rest
      rw [step] at collected
      exact same ▸ onward collected

theorem mem_labels_of_label? {name : String} {found : Nat}
    (known : destinations.label? name = some found) : (name, found) ∈ destinations.labels := by
  obtain ⟨⟨name', place'⟩, first, rfl⟩ := Option.map_eq_some_iff.mp known
  have named : name' = name := by simpa using List.find?_some first
  rw [← named]
  exact List.mem_of_find?_eq_some first

/-- The table knows the declarations of labels, and nothing else. -/
theorem label?_eq_some_iff {lastPlace : Int} {name : String} {found : Nat}
    (collected : collect ⟨[], [], lastPlace⟩ [] 0 tokens = .ok final) :
    final.label? name = some found ↔ LabelAt tokens found name := by
  constructor
  · intro known
    rcases labelAt_of_mem collected (mem_labels_of_label? known) with none | ⟨count, same, declared⟩
    · simp at none
    · rw [Nat.zero_add] at same
      exact same ▸ declared
  · rintro ⟨word, named, first, labels, second, isName⟩
    obtain ⟨bound, isNamed⟩ := List.getElem?_eq_some_iff.mp second
    obtain ⟨_, isWord⟩ := List.getElem?_eq_some_iff.mp first
    have split : tokens = tokens.take found ++ word :: named :: tokens.drop (found + 2) := by
      rw [← isWord, ← isNamed, List.getElem_cons_drop, List.getElem_cons_drop,
        List.take_append_drop]
    obtain ⟨_, text, line⟩ := word
    obtain ⟨_, text', line'⟩ := named
    obtain rfl := Lexeme.eq_keyword_of_kind labels
    obtain rfl : _ = Lexeme.identifier name := isName
    rw [split] at collected
    rw [label?_of_label collected, List.length_take, Nat.min_eq_left (by omega)]

/-- The labels in the table are declared in these tokens, in front of this place. -/
def LabelsBefore (destinations : Destinations) (tokens : List Token) (place : Nat) : Prop :=
  ∀ name first, (name, first) ∈ destinations.labels → first < place ∧ LabelAt tokens first name

theorem LabelsBefore.congr {next : Destinations} (same : next.labels = destinations.labels)
    (known : destinations.LabelsBefore tokens place) : next.LabelsBefore tokens (place + 1) := by
  intro name first member
  obtain ⟨before, declared⟩ := known name first (same ▸ member)
  exact ⟨by omega, declared⟩

theorem LabelsBefore.declare {next : Destinations} {taken rest : List Token} {text : String}
    {line : Int}
    (known : destinations.LabelsBefore (taken ++ ⟨.keyword .labelWord, text, line⟩ :: rest)
      taken.length)
    (declared : destinations.declare taken.length rest = .ok next) :
    next.LabelsBefore (taken ++ ⟨.keyword .labelWord, text, line⟩ :: rest)
      (taken.length + 1) := by
  rcases declare_cases text line declared with same | ⟨fresh, labelled, grown⟩
  · exact known.congr same
  · intro name first member
    rw [grown, List.mem_append, List.mem_singleton, Prod.mk.injEq] at member
    rcases member with member | ⟨rfl, rfl⟩
    · exact known.congr rfl name first member
    · exact ⟨Nat.lt_succ_self _, labelled.behind taken⟩

private theorem exists_declare (text : String) (line : Int)
    (fresh : ∀ name, LabelAt (⟨.keyword .labelWord, text, line⟩ :: tokens) 0 name →
      destinations.label? name = none) :
    ∃ next, destinations.declare place tokens = .ok next := by
  unfold declare
  split
  · next name _ _ _ =>
    have unknown : destinations.label? name = none := fresh name ⟨_, _, rfl, rfl, rfl, rfl⟩
    simp [unknown]
  · exact ⟨_, rfl⟩

/-- If no label is declared twice, the table can be made. -/
theorem exists_collect_of_distinct {taken : List Token}
    (distinct : ∀ name first second, LabelAt (taken ++ tokens) first name →
      LabelAt (taken ++ tokens) second name → first = second)
    (known : destinations.LabelsBefore (taken ++ tokens) taken.length) :
    ∃ final, collect destinations blocks taken.length tokens = .ok final := by
  induction tokens generalizing taken destinations blocks with
  | nil => exact ⟨destinations, rfl⟩
  | cons token rest induction =>
    have onward {next : Destinations} {inner : List (Block × Nat)}
        (knows : next.LabelsBefore (taken ++ token :: rest) (taken.length + 1)) :
        ∃ final, collect next inner (taken.length + 1) rest = .ok final := by
      have length : (taken ++ [token]).length = taken.length + 1 := by simp
      have shape : taken ++ token :: rest = (taken ++ [token]) ++ rest := by simp
      rw [shape] at distinct knows
      rw [← length] at knows ⊢
      exact induction distinct knows
    by_cases labels : token.lexeme = .keyword .labelWord
    · obtain ⟨lexeme, text, line⟩ := token
      obtain rfl : lexeme = _ := labels
      have fresh : ∀ name, LabelAt (⟨.keyword .labelWord, text, line⟩ :: rest) 0 name →
          destinations.label? name = none := by
        intro name here
        apply Option.eq_none_iff_forall_ne_some.mpr
        intro first again
        -- a name that the table knows would be declared here once more
        obtain ⟨before, declared⟩ := known name first (mem_labels_of_label? again)
        have once := distinct name first _ declared (here.behind taken)
        omega
      have declares : ∃ next, destinations.declare taken.length rest = .ok next :=
        exists_declare text line fresh
      obtain ⟨next, declared⟩ := declares
      simp only [collect, declared]
      exact onward (known.declare declared)
    · obtain ⟨next, inner, same, step⟩ :=
        @exists_collect_cons_eq destinations blocks taken.length token labels rest
      rw [step]
      exact onward (known.congr same)

/-- An open block was opened by its own word. -/
theorem opener_of_mem_openBlocks {block : Block} {opener : Nat}
    (member : (block, opener) ∈ openBlocks blocks place tokens) :
    (block, opener) ∈ blocks ∨ ∃ count token, opener = place + count ∧
      tokens[count]? = some token ∧ token.kind = .keyword block.opener := by
  induction tokens generalizing blocks place with
  | nil => exact .inl member
  | cons token rest induction =>
    rcases induction member with known | ⟨count, opening, rfl, there, opens⟩
    · rcases openAfter_cases blocks place token with
        ⟨block', opens, -, opened⟩ | ⟨block', opener', outer, -, same, -, left⟩ | ⟨-, unchanged⟩
      · rw [opened, List.mem_cons, Prod.mk.injEq] at known
        rcases known with ⟨rfl, rfl⟩ | known
        · exact .inr ⟨0, token, rfl, rfl, opens⟩
        · exact .inl known
      · rw [left] at known
        rw [same]
        exact .inl (List.mem_cons_of_mem _ known)
      · rw [unchanged] at known
        exact .inl known
    · exact .inr ⟨count + 1, opening, by omega, there, opens⟩

private theorem opener_inj {block other : Block} (same : block.opener = other.opener) :
    block = other := by
  cases block <;> cases other <;> first | rfl | cases same

/-- What is open from a block's first word on is this block. -/
theorem eq_of_mem_openBlocks {front rest taken behind : List Token} {token : Token}
    {block other : Block} (opens : token.kind = .keyword block.opener)
    (split : front ++ token :: rest = taken ++ behind)
    (member : (other, front.length) ∈ openBlocks [] 0 taken) :
    other = block ∧ ∃ inner, taken = front ++ token :: inner := by
  rcases opener_of_mem_openBlocks member with none | ⟨count, opening, same, there, opens'⟩
  · simp at none
  · rw [Nat.zero_add] at same
    subst same
    obtain ⟨bound, -⟩ := List.getElem?_eq_some_iff.mp there
    rcases List.append_eq_append_iff.mp split with ⟨inner, rfl, same⟩ | ⟨inner, rfl, -⟩
    · cases inner with
      | nil => simp at bound
      | cons first inner =>
        obtain ⟨rfl, -⟩ := List.cons.inj same
        rw [List.getElem?_append_right (Nat.le_refl _), Nat.sub_self] at there
        obtain rfl := Option.some.inj there
        refine ⟨opener_inj ?_, inner, rfl⟩
        simpa using opens'.symm.trans opens
    · rw [List.length_append] at bound
      omega

/-- A block whose first line has been read is closed, if at all, by a word of its own kind behind
this line. -/
theorem exists_closer_of_closer? {lastPlace : Int} {front rest inner : List Token} {token : Token}
    {block : Block} {closing : Nat}
    (collected : collect ⟨[], [], lastPlace⟩ [] 0 (front ++ token :: rest) = .ok final)
    (opens : token.kind = .keyword block.opener) (quiet : Quiet rest inner)
    (found : final.closer? front.length = some closing) :
    ∃ skipped closer behind, inner = skipped ++ closer :: behind ∧
      closer.kind = .keyword block.closer ∧
      (front ++ token :: rest).drop closing = closer :: behind := by
  obtain ⟨taken, closer, behind, other, outer, split, closes, stack, rfl⟩ :=
    (closer?_eq_some_iff collected).mp found
  have member : (other, front.length) ∈ openBlocks [] 0 taken := by
    rw [stack]
    exact List.mem_cons_self
  obtain ⟨rfl, passed, rfl⟩ := eq_of_mem_openBlocks opens split member
  obtain ⟨header, rfl, plain⟩ := quiet
  have whole : header ++ inner = passed ++ closer :: behind := by simpa using split
  rw [split, List.drop_left]
  rcases List.append_eq_append_iff.mp whole with ⟨skipped, rfl, rfl⟩ | ⟨others, rfl, same⟩
  · exact ⟨skipped, closer, behind, rfl, closes, rfl⟩
  · cases others with
    | nil => exact ⟨[], closer, behind, same.symm, closes, rfl⟩
    | cons first others =>
      -- the first line holds no word of a block
      obtain ⟨rfl, -⟩ := List.cons.inj same
      have inLine : closer ∈ passed ++ closer :: others :=
        List.mem_append_right passed List.mem_cons_self
      exact absurd closes (plain closer inLine other).2

end Destinations

theorem Program.load_eq_ok {tokens : List Token} {program : Program}
    (loaded : load tokens = .ok program) :
    ∃ last, last.kind = .eof ∧ last.line = program.lastLine ∧ tokens = program.body ++ [last] := by
  unfold load at loaded
  split at loaded
  · next last found =>
    split at loaded
    · next atEnd =>
      split at loaded
      · next made assembled =>
        simp only [Except.ok.injEq] at loaded
        subst loaded
        unfold assemble at assembled
        split at assembled
        · simp only [Except.ok.injEq] at assembled
          subst assembled
          refine ⟨last, atEnd, rfl, ?_⟩
          exact (List.dropLast_append_getLast? last found).symm
        · simp at assembled
      · simp at loaded
    · simp at loaded
  · simp at loaded

private theorem Program.exists_load {tokens : List Token} {last : Token}
    (found : tokens.getLast? = some last) (atEnd : last.kind = .eof)
    (distinct : ∀ name first second, LabelAt tokens first name → LabelAt tokens second name →
      first = second) :
    ∃ program, load tokens = .ok program := by
  obtain ⟨final, collected⟩ :=
    @Destinations.exists_collect_of_distinct ⟨[], [], tokens.length - 1⟩ [] tokens [] distinct
      (by simp [Destinations.LabelsBefore])
  have shape := List.dropLast_append_getLast? last found
  refine ⟨⟨tokens.dropLast, last.line, final⟩, ?_⟩
  simp only [load, found, atEnd, if_true, assemble, shape, Destinations.ofTokens]
  rw [List.length_nil] at collected
  rw [collected]

/-- The place where a block is taken to end is one of the tokens, the end token included. -/
theorem Program.closingFrom_bounds {program : Program} (tabled : program.Tabled) (place : Int) :
    0 ≤ program.destinations.closingFrom place ∧
      program.destinations.closingFrom place ≤ program.body.length := by
  cases place with
  | negSucc =>
    rw [Destinations.closingFrom, lastPlace_eq tabled]
    omega
  | ofNat place =>
    rw [Int.ofNat_eq_natCast]
    cases found : program.destinations.closer? place with
    | none =>
      rw [closingFrom_of_closer?_eq_none tabled found]
      omega
    | some closing =>
      obtain ⟨taken, closer, behind, _, _, split, -, -, rfl⟩ :=
        (Destinations.closer?_eq_some_iff tabled).mp found
      rw [Destinations.closingFrom_of_closer? found, split, List.length_append]
      omega

namespace Diagnostic.About

variable {token : Token} {diagnostic : Diagnostic}

theorem line_eq (about : diagnostic.About token) : diagnostic.line = token.line := by
  cases about <;> rfl

theorem grammar_or_naming (about : diagnostic.About token) :
    (∃ fault, diagnostic.fault = .grammar fault) ∨ ∃ fault, diagnostic.fault = .naming fault := by
  cases about with
  | unassignedVariable _ | repeatedLabel _ => exact .inr ⟨_, rfl⟩
  | _ => exact .inl ⟨_, rfl⟩

theorem ne_undeclaredLabel (about : diagnostic.About token) (name : String) :
    diagnostic.fault ≠ .naming (.undeclaredLabel name) := by
  intro same
  cases about <;> cases same

end Diagnostic.About

namespace Ending

variable {last : Int} {tokens : List Token} {diagnostic : Diagnostic}

theorem about_of_expect {kind : Kind}
    (refused : (eof last).expect kind tokens = .error diagnostic) :
    diagnostic.About (frontOf last tokens) := by
  unfold expect at refused
  split at refused
  · cases refused
    exact .expected kind
  · split at refused
    · simp at refused
    · cases refused
      exact .expected kind

theorem about_of_expectName (refused : (eof last).expectName tokens = .error diagnostic) :
    diagnostic.About (frontOf last tokens) := by
  unfold expectName at refused
  split at refused
  · cases refused
    exact .expected .identifier
  · split at refused
    · simp at refused
    · cases refused
      exact .expected .identifier

theorem about_of_expectLineEnd (refused : (eof last).expectLineEnd tokens = .error diagnostic) :
    diagnostic.About (frontOf last tokens) := by
  unfold expectLineEnd at refused
  split at refused
  · simp at refused
  · next unread =>
    cases refused
    exact about_of_expect unread

end Ending

namespace Machine

variable {machine next changed : Machine} {tokens : List Token}

/-- The diagnostic is a complaint about a token of the program. -/
def Blames (program : Program) (diagnostic : Diagnostic) : Prop :=
  ∃ rest, rest <:+ program.body ∧ diagnostic.About (frontOf program.lastLine rest)

theorem blames_of_peeks {α : Type} {program : Program} {reader : Reader α}
    {done : α → List Token → Prop} {begun : List Token → Prop} {diagnostic : Diagnostic}
    (peeks : Peeks program.lastLine done begun reader tokens) (suffix : tokens <:+ program.body)
    (refused : reader tokens = .error diagnostic) : Blames program diagnostic := by
  obtain ⟨taken, rest, rfl, about, -, -⟩ := peeks.error diagnostic refused
  exact ⟨rest, (List.suffix_append taken rest).trans suffix, about⟩

/-- The step notes no jump, and it fails only because of a token of the program. -/
def Orderly (machine : Machine) : Step → Prop
  | .next next => next.targets = machine.targets
  | .halt stopped => stopped = machine
  | .fault stopped diagnostic =>
      stopped.targets = machine.targets ∧ Blames machine.program diagnostic

theorem orderly_finishLine (program : changed.program = machine.program)
    (targets : changed.targets = machine.targets) (suffix : tokens <:+ machine.program.body) :
    machine.Orderly (changed.finishLine tokens) := by
  unfold finishLine
  split
  · exact targets
  · next refused =>
    rw [program] at refused
    exact ⟨targets, tokens, suffix, Ending.about_of_expectLineEnd refused⟩

private theorem orderly_printLine (suffix : tokens <:+ machine.program.body) :
    machine.Orderly (machine.printLine tokens) := by
  unfold printLine
  split
  · exact orderly_finishLine rfl rfl ((List.suffix_cons _ _).trans suffix)
  · split
    · next formula rest read =>
      obtain ⟨tree, derived⟩ := Formula.exists_sum_of_expression read
      exact orderly_finishLine rfl rfl (derived.passes.suffix.trans suffix)
    · next refused =>
      exact ⟨rfl, blames_of_peeks (Formula.peeks_expression machine.meaning tokens) suffix refused⟩

private theorem blames_of_header {block : Block} {diagnostic : Diagnostic}
    (suffix : tokens <:+ machine.program.body)
    (refused : machine.header block tokens = .error diagnostic) :
    Blames machine.program diagnostic := by
  unfold header at refused
  split at refused
  · next unread =>
    cases refused
    exact blames_of_peeks (Formula.peeks_condition machine.meaning tokens) suffix unread
  · next condition rest read =>
    obtain ⟨tree, derived⟩ := Formula.exists_comparison_of_condition read
    have suffix := derived.passes.suffix.trans suffix
    split at refused
    · next unread =>
      cases refused
      exact ⟨rest, suffix, Ending.about_of_expect unread⟩
    · next last separated =>
      obtain ⟨token, rfl, -⟩ := Ending.exists_cons_of_expect separated
      split at refused
      · next unread =>
        cases refused
        exact ⟨last, (List.suffix_cons token last).trans suffix,
          Ending.about_of_expectLineEnd unread⟩
      · simp at refused

private theorem orderly_skipBlock (block : Block) : machine.Orderly (machine.skipBlock block) := by
  have suffix := List.drop_suffix
    (machine.program.destinations.closingFrom machine.place).toNat machine.program.body
  unfold skipBlock
  simp only
  split
  · next rest found =>
    obtain ⟨token, shape, -⟩ := Ending.exists_cons_of_expect found
    rw [Program.tokensFrom] at shape
    rw [shape] at suffix
    exact orderly_finishLine rfl rfl ((List.suffix_cons token rest).trans suffix)
  · next refused => exact ⟨rfl, _, suffix, Ending.about_of_expect refused⟩

theorem orderly_openLine (block : Block) (suffix : tokens <:+ machine.program.body) :
    machine.Orderly (machine.openLine block tokens) := by
  unfold openLine
  split
  · next refused => exact ⟨rfl, blames_of_header suffix refused⟩
  · split
    · rfl
    · exact orderly_skipBlock block

private theorem orderly_labelLine (suffix : tokens <:+ machine.program.body) :
    machine.Orderly (machine.labelLine tokens) := by
  unfold labelLine
  split
  · next named =>
    obtain ⟨text, rfl⟩ := Ending.exists_identifier_of_expectName named
    exact orderly_finishLine rfl rfl ((List.suffix_cons _ _).trans suffix)
  · next refused => exact ⟨rfl, tokens, suffix, Ending.about_of_expectName refused⟩

private theorem orderly_letLine (suffix : tokens <:+ machine.program.body) :
    machine.Orderly (machine.letLine tokens) := by
  unfold letLine
  split
  · next refused => exact ⟨rfl, tokens, suffix, Ending.about_of_expectName refused⟩
  · next name line rest named =>
    obtain ⟨text, rfl⟩ := Ending.exists_identifier_of_expectName named
    have suffix := (List.suffix_cons _ rest).trans suffix
    simp only
    split
    · next refused => exact ⟨rfl, rest, suffix, Ending.about_of_expect refused⟩
    · next behind assigned =>
      obtain ⟨token, rfl, -⟩ := Ending.exists_cons_of_expect assigned
      have suffix := (List.suffix_cons token behind).trans suffix
      split
      · next refused =>
        exact ⟨rfl, blames_of_peeks (Formula.peeks_expression _ behind) suffix refused⟩
      · next formula last read =>
        obtain ⟨tree, derived⟩ := Formula.exists_sum_of_expression read
        exact orderly_finishLine rfl rfl (derived.passes.suffix.trans suffix)

private theorem orderly_inputLine (suffix : tokens <:+ machine.program.body) :
    machine.Orderly (machine.inputLine tokens) := by
  unfold inputLine
  split
  · next refused => exact ⟨rfl, tokens, suffix, Ending.about_of_expectName refused⟩
  · next named =>
    obtain ⟨text, rfl⟩ := Ending.exists_identifier_of_expectName named
    exact orderly_finishLine rfl rfl ((List.suffix_cons _ _).trans suffix)

/-- The labels that jumps have named grow by declared ones, except for one that stops the run. -/
def Notes (machine : Machine) : Step → Prop
  | .next next => ∀ name ∈ next.targets, name ∈ machine.targets ∨
      (machine.program.destinations.label? name).isSome
  | .halt stopped => stopped = machine
  | .fault stopped diagnostic =>
      stopped.targets = machine.targets ∧ Blames machine.program diagnostic ∨
      ∃ name token, token ∈ machine.program.body ∧ diagnostic = .undeclaredLabel name token.line ∧
        machine.program.destinations.label? name = none ∧ stopped = machine.noteTarget name

theorem Orderly.notes {step : Step} (orderly : machine.Orderly step) : machine.Notes step := by
  cases step with
  | next next =>
    intro name member
    have same : next.targets = machine.targets := orderly
    exact .inl (same ▸ member)
  | halt stopped => exact orderly
  | fault stopped diagnostic => exact .inl orderly

private theorem notes_gotoLine (suffix : tokens <:+ machine.program.body) :
    machine.Notes (machine.gotoLine tokens) := by
  unfold gotoLine
  split
  · next refused => exact .inl ⟨rfl, tokens, suffix, Ending.about_of_expectName refused⟩
  · next name line rest named =>
    obtain ⟨text, rfl⟩ := Ending.exists_identifier_of_expectName named
    split
    · next refused =>
      have behind := (List.suffix_cons _ rest).trans suffix
      exact .inl ⟨rfl, rest, behind, Ending.about_of_expect refused⟩
    · simp only [program_noteTarget]
      split
      · next undeclared =>
        exact .inr ⟨name, _, suffix.mem List.mem_cons_self, rfl, undeclared, rfl⟩
      · next place found =>
        intro other member
        by_cases noted : machine.targets.contains name
        · simp only [noteTarget, noted, if_true] at member
          exact .inl member
        · simp only [noteTarget, noted, Bool.false_eq_true, if_false, List.mem_append,
            List.mem_singleton] at member
          rcases member with member | rfl
          · exact .inl member
          · exact .inr (by simp [found])

theorem notes_line {token : Token} (suffix : token :: tokens <:+ machine.program.body) :
    machine.Notes (machine.line token tokens) := by
  have behind := (List.suffix_cons token tokens).trans suffix
  unfold line
  split
  · exact (orderly_printLine behind).notes
  · exact (orderly_openLine .conditional behind).notes
  · exact (orderly_openLine .loop behind).notes
  · exact (orderly_labelLine behind).notes
  · exact notes_gotoLine behind
  · exact (orderly_letLine behind).notes
  · exact (orderly_inputLine behind).notes
  · exact .inl ⟨rfl, _, suffix, .invalidStatement⟩

theorem notes_step (suffix : machine.rest <:+ machine.program.body) :
    machine.Notes machine.step := by
  unfold step
  split
  · rfl
  · exact .inl ⟨rfl, [], List.nil_suffix, .invalidStatement⟩
  · next token rest front _ =>
    rw [front] at suffix
    split
    · rfl
    · exact notes_line suffix
  · next token rest block opener outer front _ =>
    rw [front] at suffix
    split
    · have behind := (List.suffix_cons token rest).trans suffix
      apply Orderly.notes
      cases block with
      | loop => rfl
      | conditional => exact orderly_finishLine rfl rfl behind
    · exact notes_line suffix

def OpensAt (tokens : List Token) (place : Nat) (block : Block) : Prop :=
  ∃ token, tokens[place]? = some token ∧ token.kind = .keyword block.opener

/-- The cursor is in the program, the blocks being executed were opened where the machine believes,
and jumps have named declared labels. -/
structure Safe (machine : Machine) : Prop where
  cursor : machine.rest <:+ machine.program.body
  openers : ∀ block opener, (block, opener) ∈ machine.blocks →
    OpensAt machine.program.body opener block
  targets : ∀ name ∈ machine.targets, (machine.program.destinations.label? name).isSome

theorem safe_start (program : Program) (input : List Char) : (start program input).Safe where
  cursor := List.dropWhile_suffix _
  openers := by simp [start]
  targets := by simp [start]

private theorem opensAt_place {token : Token} {block : Block}
    (cursor : machine.rest <:+ machine.program.body) (front : machine.rest = token :: tokens)
    (opens : token.kind = .keyword block.opener) :
    OpensAt machine.program.body machine.place block := by
  refine ⟨token, ?_, opens⟩
  have there := tokensFrom_place cursor
  rw [front, Program.tokensFrom] at there
  rw [← List.head?_drop, there, List.head?_cons]

theorem Safe.openers_line {token : Token} (safe : machine.Safe)
    (front : machine.rest = token :: tokens) (taken : machine.line token tokens = .next next)
    {block : Block} {opener : Nat} (member : (block, opener) ∈ next.blocks) :
    OpensAt machine.program.body opener block := by
  rcases line_cases taken with plain | jumps | ⟨block', opens, enters | skips⟩
  · exact safe.openers block opener (plain.blocks ▸ member)
  · simp [jumps.blocks] at member
  · rw [enters.blocks, List.mem_cons, Prod.mk.injEq] at member
    rcases member with ⟨rfl, rfl⟩ | member
    · exact opensAt_place safe.cursor front opens
    · exact safe.openers block opener member
  · obtain ⟨_, _, _, _, plain⟩ := skips
    exact safe.openers block opener (plain.blocks ▸ member)

private theorem Safe.openers_step (safe : machine.Safe) (taken : machine.step = .next next)
    {block : Block} {opener : Nat} (member : (block, opener) ∈ next.blocks) :
    OpensAt machine.program.body opener block := by
  unfold step at taken
  split at taken
  · simp at taken
  · simp at taken
  · next token rest front _ =>
    split at taken
    · simp at taken
    · exact safe.openers_line front taken member
  · next token rest innermost _ outer front stack =>
    split at taken
    · have left := (blocks_of_closeLine taken).2
      apply safe.openers
      rw [stack, ← left]
      exact List.mem_cons_of_mem _ member
    · exact safe.openers_line front taken member

theorem Safe.step (safe : machine.Safe) (taken : machine.step = .next next) :
    next.program = machine.program ∧ next.Safe := by
  obtain ⟨program, cursor⟩ := suffix_of_step safe.cursor taken
  refine ⟨program, ?_, ?_, ?_⟩
  · rwa [program]
  · intro block opener member
    rw [program]
    exact safe.openers_step taken member
  · intro name member
    have notes := notes_step safe.cursor
    rw [taken] at notes
    rw [program]
    rcases notes name member with known | declared
    · exact safe.targets name known
    · exact declared

/-- The machine is one that the first one becomes. -/
inductive Reaches (first : Machine) : Machine → Prop
  | here : Reaches first first
  | step {machine next : Machine} : Reaches first machine → machine.step = .next next →
      Reaches first next

theorem Safe.run {last : Machine} (safe : machine.Safe) (reached : Reaches machine last) :
    last.program = machine.program ∧ last.Safe := by
  induction reached with
  | here => exact ⟨rfl, safe⟩
  | step _ taken induction =>
    obtain ⟨program, reachedSafe⟩ := induction
    obtain ⟨program', nextSafe⟩ := reachedSafe.step taken
    exact ⟨program'.trans program, nextSafe⟩

private theorem Reaches.of_step {last : Machine} (taken : machine.step = .next next)
    (reached : Reaches next last) : Reaches machine last := by
  induction reached with
  | here => exact .step .here taken
  | step _ taken' induction => exact .step induction taken'

/-- A run ends with the last step of some machine that it has reached. -/
theorem exists_reaches_of_run? {budget : Nat} {stopped : Stopped}
    (ran : machine.run? budget = some stopped) :
    ∃ last, Reaches machine last ∧
      (last.step = .halt stopped.machine ∧ stopped.fault = none ∨
        ∃ diagnostic, last.step = .fault stopped.machine diagnostic ∧
          stopped.fault = some diagnostic) := by
  induction budget generalizing machine with
  | zero => simp [run?] at ran
  | succ budget induction =>
    unfold run? at ran
    split at ran
    · next next taken =>
      obtain ⟨last, reached, ended⟩ := induction ran
      exact ⟨last, reached.of_step taken, ended⟩
    · next halted taken =>
      cases ran
      exact ⟨machine, .here, .inl ⟨taken, rfl⟩⟩
    · next faulty diagnostic taken =>
      cases ran
      exact ⟨machine, .here, .inr ⟨diagnostic, taken, rfl⟩⟩

/-- A block whose condition is not met leads forward to a closing word of its kind, or the run ends
because there is none. -/
def SkipsForward (machine : Machine) : Prop :=
  ∀ block opener rest condition inner, machine.rest = opener :: rest →
    opener.kind = .keyword (Block.opener block) →
    machine.header block rest = .ok (condition, inner) → condition.isMet = false →
    inner <:+ rest ∧
    ((∃ skipped closer behind, inner = skipped ++ closer :: behind ∧
        closer.kind = .keyword (Block.closer block) ∧ machine.step = machine.finishLine behind) ∨
      ∃ diagnostic, machine.step = .fault machine diagnostic ∧
        diagnostic.line = machine.program.lastLine ∧
        diagnostic.fault.text = "Expected " ++ (Block.closer block).text ++ ", got EOF")

private theorem skipsForward (tabled : machine.program.Tabled)
    (cursor : machine.rest <:+ machine.program.body) : machine.SkipsForward := by
  intro block opener rest condition inner front opens read unmet
  have quiet := quiet_of_header read
  refine ⟨quiet.suffix, ?_⟩
  have skips : machine.step = machine.skipBlock block := by
    obtain ⟨lexeme, text, line⟩ := opener
    obtain rfl : lexeme = _ := Lexeme.eq_keyword_of_kind opens
    rw [step_eq_line front block.opener_ne_closer, line_opener]
    simp only [openLine, read, unmet, Bool.false_eq_true, if_false]
  rw [skips]
  cases found : machine.program.destinations.closer? machine.place with
  | none =>
    have atEnd := Program.closingFrom_of_closer?_eq_none tabled found
    right
    refine ⟨.expected (.keyword block.closer) (Token.eofAt machine.program.lastLine), ?_, rfl, ?_⟩
    · simp only [skipBlock, atEnd, Int.toNat_natCast, Program.tokensFrom, List.drop_length]
      rfl
    · cases block <;> rfl
  | some closing =>
    obtain ⟨taken, split⟩ := cursor
    have place := place_eq_length split
    rw [front] at split
    have closingFrom := Destinations.closingFrom_of_closer? found
    have collected := tabled
    rw [Program.Tabled, ← split] at collected
    rw [place] at found
    obtain ⟨skipped, closer, behind, shape, closes, there⟩ :=
      Destinations.exists_closer_of_closer? collected opens quiet found
    rw [split] at there
    left
    refine ⟨skipped, closer, behind, shape, closes, ?_⟩
    simp only [skipBlock, closingFrom, Int.toNat_natCast, Program.tokensFrom, there, Ending.expect,
      closes, if_true]

private theorem step_of_goto {word named ended : Token} {more : List Token} {name : String}
    {place : Nat}
    (front : machine.rest = word :: named :: ended :: more)
    (jumps : word.kind = .keyword .gotoWord) (isName : named.lexeme = .identifier name)
    (ends : ended.kind = .newline)
    (found : machine.program.destinations.label? name = some place) :
    machine.step = .next { machine.noteTarget name with
      rest := machine.program.tokensFrom place, blocks := [] } := by
  obtain ⟨lexeme, text, line⟩ := word
  obtain rfl : lexeme = _ := Lexeme.eq_keyword_of_kind jumps
  rw [step_eq_line front (by rintro (_ | _) <;> decide)]
  simp [Machine.line, gotoLine, Ending.expectName, isName, Ending.expect, ends,
    program_noteTarget, found]

/-- The label is declared somewhere among the tokens. -/
def Declared (tokens : List Token) (name : String) : Prop :=
  ∃ place, LabelAt tokens place name

/-- A jump to a declared label leads to its declaration. -/
def JumpsToLabels (tokens : List Token) (machine : Machine) : Prop :=
  ∀ word named ended more name, machine.rest = word :: named :: ended :: more →
    word.kind = .keyword .gotoWord → named.lexeme = .identifier name → ended.kind = .newline →
    Declared tokens name →
    ∃ next, machine.step = .next next ∧ LabelAt tokens next.place name

private theorem jumpsToLabels {program : Program} (loaded : Program.load tokens = .ok program)
    (running : machine.program = program) : JumpsToLabels tokens machine := by
  rintro word named ended more name front jumps isName ends ⟨place, declared⟩
  subst running
  have tabled := Program.tabled_of_load loaded
  obtain ⟨last, atEnd, -, rfl⟩ := Program.load_eq_ok loaded
  have inside := (labelAt_append_iff atEnd).mp declared
  have found := (Destinations.label?_eq_some_iff tabled).mpr inside
  refine ⟨_, step_of_goto front jumps isName ends found, ?_⟩
  obtain ⟨_, _, here, -, -, -⟩ := inside
  obtain ⟨bound, -⟩ := List.getElem?_eq_some_iff.mp here
  simp only [Machine.place, program_noteTarget, Program.tokensFrom, List.length_drop]
  rw [Nat.sub_sub_self (by omega)]
  exact declared

/-- What the cursor sees are the tokens at its place, and wherever it may be sent there is a token:
the table ends blocks and declares labels inside the tokens, and a block that is being executed
leads back to its first word.  Jumps have named declared labels. -/
structure SafeOn (tokens : List Token) (machine : Machine) : Prop where
  place : machine.place < tokens.length
  rest : ∃ last, last.kind = .eof ∧ tokens.drop machine.place = machine.rest ++ [last]
  closings : ∀ place, 0 ≤ machine.program.destinations.closingFrom place ∧
    machine.program.destinations.closingFrom place ≤ tokens.length - 1
  labels : ∀ name place, machine.program.destinations.label? name = some place →
    LabelAt tokens place name
  openers : ∀ block opener, (block, opener) ∈ machine.blocks → OpensAt tokens opener block
  targets : ∀ name ∈ machine.targets, Declared tokens name

/-- A run ends well, or because of the grammar or a name at some token.  All labels that jumps have
named are declared, except the last one if the run ends because of it. -/
def EndsSafely (tokens : List Token) (stopped : Stopped) : Prop :=
  match stopped.fault with
  | none => ∀ name ∈ stopped.machine.targets, Declared tokens name
  | some diagnostic =>
      (∃ token ∈ tokens, diagnostic.line = token.line) ∧
      ((∃ fault, diagnostic.fault = .grammar fault) ∨
        ∃ fault, diagnostic.fault = .naming fault) ∧
      ((∀ name, diagnostic.fault ≠ .naming (.undeclaredLabel name)) ∧
          (∀ name ∈ stopped.machine.targets, Declared tokens name) ∨
        ∃ name earlier, diagnostic.fault = .naming (.undeclaredLabel name) ∧
          ¬Declared tokens name ∧ stopped.machine.targets = earlier ++ [name] ∧
          ∀ other ∈ earlier, Declared tokens other)

section Loaded

variable {program : Program} (loaded : Program.load tokens = .ok program)
include loaded

theorem declared_iff {name : String} :
    Declared tokens name ↔ (program.destinations.label? name).isSome := by
  have tabled := Program.tabled_of_load loaded
  obtain ⟨last, atEnd, -, rfl⟩ := Program.load_eq_ok loaded
  rw [Option.isSome_iff_exists]
  apply exists_congr
  intro place
  rw [labelAt_append_iff atEnd, Destinations.label?_eq_some_iff tabled]

theorem Safe.safeOn (safe : machine.Safe) (running : machine.program = program) :
    SafeOn tokens machine := by
  subst running
  have tabled := Program.tabled_of_load loaded
  obtain ⟨last, atEnd, -, shape⟩ := Program.load_eq_ok loaded
  have within : machine.place ≤ machine.program.body.length := Nat.sub_le _ _
  refine ⟨?_, ⟨last, atEnd, ?_⟩, ?_, ?_, ?_, ?_⟩
  · rw [shape, List.length_append, List.length_singleton]
    omega
  · rw [shape, List.drop_append_of_le_length within]
    congr 1
    exact tokensFrom_place safe.cursor
  · intro place
    obtain ⟨least, greatest⟩ := Program.closingFrom_bounds tabled place
    rw [shape, List.length_append, List.length_singleton]
    omega
  · intro name place found
    rw [shape, labelAt_append_iff atEnd]
    exact (Destinations.label?_eq_some_iff tabled).mp found
  · intro block opener member
    obtain ⟨token, there, opens⟩ := safe.openers block opener member
    obtain ⟨bound, -⟩ := List.getElem?_eq_some_iff.mp there
    exact ⟨token, by rw [shape, List.getElem?_append_left bound, there], opens⟩
  · intro name member
    exact (declared_iff loaded).mpr (safe.targets name member)

theorem Blames.exists_mem {diagnostic : Diagnostic} (blames : Blames program diagnostic) :
    ∃ token ∈ tokens, diagnostic.line = token.line := by
  obtain ⟨last, -, line, rfl⟩ := Program.load_eq_ok loaded
  obtain ⟨rest, suffix, about⟩ := blames
  rw [about.line_eq]
  cases rest with
  | nil => exact ⟨last, by simp, line.symm⟩
  | cons token rest =>
    exact ⟨token, List.mem_append_left _ (suffix.mem List.mem_cons_self), rfl⟩

private theorem Safe.endsSafely {stopped : Stopped} {diagnostic : Diagnostic} (safe : machine.Safe)
    (running : machine.program = program)
    (taken : machine.step = .fault stopped.machine diagnostic)
    (fault : stopped.fault = some diagnostic) : EndsSafely tokens stopped := by
  subst running
  have targets := (safe.safeOn loaded rfl).targets
  have notes := notes_step safe.cursor
  rw [taken] at notes
  simp only [EndsSafely, fault]
  rcases notes with ⟨same, blames⟩ | ⟨name, token, member, rfl, undeclared, same⟩
  · refine ⟨blames.exists_mem loaded, ?_, .inl ⟨?_, by rwa [same]⟩⟩
    · obtain ⟨_, _, about⟩ := blames
      exact about.grammar_or_naming
    · obtain ⟨_, _, about⟩ := blames
      exact about.ne_undeclaredLabel
  · have unknown : ¬Declared tokens name := by
      rw [declared_iff loaded, undeclared]
      simp
    have fresh : ¬machine.targets.contains name := by
      intro known
      exact unknown (targets name (by simpa using known))
    refine ⟨⟨token, ?_, rfl⟩, .inr ⟨_, rfl⟩,
      .inr ⟨name, machine.targets, rfl, unknown, ?_, targets⟩⟩
    · obtain ⟨last, -, -, shape⟩ := Program.load_eq_ok loaded
      rw [shape]
      exact List.mem_append_left _ member
    · rw [same, noteTarget, if_neg fresh]

private theorem endsSafely_of_run? {input : List Char} {budget : Nat} {stopped : Stopped}
    (ran : (start program input).run? budget = some stopped) : EndsSafely tokens stopped := by
  obtain ⟨last, reached, ended⟩ := exists_reaches_of_run? ran
  obtain ⟨running, safe⟩ := (safe_start program input).run reached
  rcases ended with ⟨taken, none⟩ | ⟨diagnostic, taken, fault⟩
  · have notes := notes_step safe.cursor
    rw [taken] at notes
    have same : stopped.machine = last := notes
    simp only [EndsSafely, none, same]
    exact (safe.safeOn loaded running).targets
  · exact safe.endsSafely loaded running taken fault

end Loaded

namespace Sample

/-- A jump over an end token and a stray closing word, and one to a label that is not there. -/
def strandedTokens : List Token := [
  ⟨.keyword .gotoWord, "GOTO", 1⟩, ⟨.identifier "on", "on", 1⟩, ⟨.newline, "\n", 1⟩,
  Token.eofAt 2, ⟨.keyword .endwhileWord, "ENDWHILE", 2⟩,
  ⟨.keyword .labelWord, "LABEL", 3⟩, ⟨.identifier "on", "on", 3⟩, ⟨.newline, "\n", 3⟩,
  ⟨.keyword .gotoWord, "GOTO", 4⟩, ⟨.identifier "off", "off", 4⟩, ⟨.newline, "\n", 4⟩,
  Token.eofAt 5]

def stranded : Program :=
  ⟨strandedTokens.dropLast, 5, ⟨[], [("on", 5)], 11⟩⟩

theorem load_stranded : Program.load strandedTokens = .ok stranded := rfl

theorem labelAt_stranded {name : String} {place : Nat}
    (declared : LabelAt strandedTokens place name) : place = 5 := by
  have tabled := Program.tabled_of_load load_stranded
  have inside := (@labelAt_append_iff strandedTokens.dropLast (Token.eofAt 5) rfl _ _).mp declared
  have found := (Destinations.label?_eq_some_iff tabled).mpr inside
  have member : (name, place) ∈ [("on", 5)] := Destinations.mem_labels_of_label? found
  simp only [List.mem_singleton, Prod.mk.injEq] at member
  exact member.2

end Sample

/-- Tokens that end with an end token and declare no label twice can be run, whatever else they
are, and the cursor is safe on every input: it stays on the tokens, conditions that are not met lead
forward to a closing word, and jumps lead to labels. -/
theorem cursor_safe_of_distinct {last : Token} (found : tokens.getLast? = some last)
    (atEnd : last.kind = .eof)
    (distinct : ∀ name first second, LabelAt tokens first name → LabelAt tokens second name →
      first = second) :
    ∃ program, Program.load tokens = .ok program ∧ ∀ input,
      (∀ machine, Reaches (start program input) machine →
        SafeOn tokens machine ∧ SkipsForward machine ∧ JumpsToLabels tokens machine) ∧
      ∀ budget stopped, (start program input).run? budget = some stopped →
        EndsSafely tokens stopped := by
  obtain ⟨program, loaded⟩ := Program.exists_load found atEnd distinct
  refine ⟨program, loaded, ?_⟩
  intro input
  refine ⟨?_, fun budget stopped => endsSafely_of_run? loaded⟩
  intro machine reached
  obtain ⟨running, safe⟩ := (safe_start program input).run reached
  refine ⟨safe.safeOn loaded running, ?_, jumpsToLabels loaded running⟩
  have tabled := Program.tabled_of_load loaded
  subst running
  exact skipsForward tabled safe.cursor

/-- The run ends at the second jump, and no other name than its own is undeclared. -/
theorem cursor_safe_of_distinct_stranded :
    ∃ stopped, (start Sample.stranded []).run? 3 = some stopped ∧
      stopped.machine.targets = ["on", "off"] ∧ EndsSafely Sample.strandedTokens stopped := by
  obtain ⟨program, loaded, safe⟩ :=
    @cursor_safe_of_distinct Sample.strandedTokens (Token.eofAt 5) rfl rfl (by
      intro name first second declared declared'
      rw [Sample.labelAt_stranded declared, Sample.labelAt_stranded declared'])
  obtain rfl : Sample.stranded = program := Except.ok.inj (Sample.load_stranded.symm.trans loaded)
  exact ⟨_, rfl, rfl, (safe []).2 3 _ rfl⟩

end Machine

end TeenyBasic
