import TeenyBasic.Proofs.JumpTable

/-!
# Blocks that are open at a place

The pass that makes the table of jumps looks at the words of blocks only.  This module says what
it finds in any list of tokens, whether the grammar derives them or not: the blocks that are open
in front of each token (`openBlocks`), and the pairs of places that it notes
(`closer?_eq_some_iff`).  A block that is open somewhere was opened where exactly the blocks around
it were open (`openBlocks_eq_append`), which holds in ill-nested programs too.
-/

namespace TeenyBasic

namespace Destinations

/-- The open blocks behind a closing word: the innermost one is left if the word fits it. -/
def leave (block : Block) : List (Block × Nat) → List (Block × Nat)
  | (inner, opener) :: outer => if inner = block then outer else (inner, opener) :: outer
  | [] => []

/-- The pair that a closing word makes with the innermost open block. -/
def pairOf (block : Block) (place : Nat) : List (Block × Nat) → List (Nat × Nat)
  | (inner, opener) :: _ => if inner = block then [(opener, place)] else []
  | [] => []

def openAfter (blocks : List (Block × Nat)) (place : Nat) (token : Token) : List (Block × Nat) :=
  match token.lexeme with
  | .keyword .ifWord => (.conditional, place) :: blocks
  | .keyword .whileWord => (.loop, place) :: blocks
  | .keyword .endifWord => leave .conditional blocks
  | .keyword .endwhileWord => leave .loop blocks
  | _ => blocks

def pairsAt (blocks : List (Block × Nat)) (place : Nat) (token : Token) : List (Nat × Nat) :=
  match token.lexeme with
  | .keyword .endifWord => pairOf .conditional place blocks
  | .keyword .endwhileWord => pairOf .loop place blocks
  | _ => []

def openBlocks (blocks : List (Block × Nat)) (place : Nat) : List Token → List (Block × Nat)
  | [] => blocks
  | token :: rest => openBlocks (openAfter blocks place token) (place + 1) rest

def pairs (blocks : List (Block × Nat)) (place : Nat) : List Token → List (Nat × Nat)
  | [] => []
  | token :: rest =>
      pairsAt blocks place token ++ pairs (openAfter blocks place token) (place + 1) rest

variable {destinations final : Destinations} {blocks : List (Block × Nat)} {place : Nat}

@[simp] theorem openBlocks_append (first second : List Token) :
    openBlocks blocks place (first ++ second) =
      openBlocks (openBlocks blocks place first) (place + first.length) second := by
  induction first generalizing blocks place with
  | nil => rfl
  | cons token first induction =>
      simp only [List.cons_append, openBlocks, List.length_cons]
      rw [induction, Nat.add_right_comm, Nat.add_assoc]

@[simp] theorem openAfter_opener {token : Token} {block : Block}
    (opens : token.kind = .keyword block.opener) :
    openAfter blocks place token = (block, place) :: blocks := by
  obtain ⟨lexeme, text, line⟩ := token
  obtain rfl : lexeme = _ := Lexeme.eq_keyword_of_kind opens
  cases block <;> rfl

@[simp] theorem openAfter_closer {token : Token} {block : Block}
    (closes : token.kind = .keyword block.closer) :
    openAfter blocks place token = leave block blocks := by
  obtain ⟨lexeme, text, line⟩ := token
  obtain rfl : lexeme = _ := Lexeme.eq_keyword_of_kind closes
  cases block <;> rfl

@[simp] theorem openAfter_other {token : Token} (other : ∀ block : Block,
    token.kind ≠ .keyword block.opener ∧ token.kind ≠ .keyword block.closer) :
    openAfter blocks place token = blocks := by
  have conditional := other .conditional
  have loop := other .loop
  obtain ⟨lexeme, text, line⟩ := token
  cases lexeme with
  | keyword word =>
      cases word with
      | ifWord => exact absurd rfl conditional.1
      | endifWord => exact absurd rfl conditional.2
      | whileWord => exact absurd rfl loop.1
      | endwhileWord => exact absurd rfl loop.2
      | _ => rfl
  | _ => rfl

@[simp] theorem pairsAt_closer {token : Token} {block : Block}
    (closes : token.kind = .keyword block.closer) :
    pairsAt blocks place token = pairOf block place blocks := by
  obtain ⟨lexeme, text, line⟩ := token
  obtain rfl : lexeme = _ := Lexeme.eq_keyword_of_kind closes
  cases block <;> rfl

/-- What one token does to the open blocks: it opens one, or closes the innermost one, or nothing
changes. -/
theorem openAfter_cases (blocks : List (Block × Nat)) (place : Nat) (token : Token) :
    (∃ block : Block, token.kind = .keyword block.opener ∧ pairsAt blocks place token = [] ∧
      openAfter blocks place token = (block, place) :: blocks) ∨
    (∃ block opener outer, token.kind = .keyword (Block.closer block) ∧
      blocks = (block, opener) :: outer ∧ pairsAt blocks place token = [(opener, place)] ∧
      openAfter blocks place token = outer) ∨
    (pairsAt blocks place token = [] ∧ openAfter blocks place token = blocks) := by
  have closed : ∀ block : Block, token.kind = .keyword block.closer →
      (∃ block opener outer, token.kind = .keyword (Block.closer block) ∧
        blocks = (block, opener) :: outer ∧ pairsAt blocks place token = [(opener, place)] ∧
        openAfter blocks place token = outer) ∨
      (pairsAt blocks place token = [] ∧ openAfter blocks place token = blocks) := by
    intro block closes
    rw [pairsAt_closer closes, openAfter_closer closes]
    cases blocks with
    | nil => exact .inr ⟨rfl, rfl⟩
    | cons opened outer =>
        obtain ⟨inner, opener⟩ := opened
        by_cases fits : inner = block
        · subst fits
          exact .inl ⟨inner, opener, outer, closes, rfl, by simp [pairOf], by simp [leave]⟩
        · exact .inr ⟨by simp [pairOf, fits], by simp [leave, fits]⟩
  obtain ⟨lexeme, text, line⟩ := token
  cases lexeme with
  | keyword word =>
      cases word with
      | ifWord => exact .inl ⟨.conditional, rfl, rfl, rfl⟩
      | whileWord => exact .inl ⟨.loop, rfl, rfl, rfl⟩
      | endifWord => exact .inr (closed .conditional rfl)
      | endwhileWord => exact .inr (closed .loop rfl)
      | _ => exact .inr (.inr ⟨rfl, rfl⟩)
  | _ => exact .inr (.inr ⟨rfl, rfl⟩)

theorem close_eq (destinations : Destinations) (block : Block) (place : Nat)
    (blocks : List (Block × Nat)) :
    destinations.close block place blocks =
      ({ destinations with closings := destinations.closings ++ pairOf block place blocks },
        leave block blocks) := by
  unfold close
  split
  · next inner opener outer =>
    by_cases fits : inner = block
    · simp [fits, pairOf, leave]
    · simp [fits, pairOf, leave]
  · simp [pairOf, leave]

private theorem lastPlace_declare {next : Destinations} {tokens : List Token}
    (declared : destinations.declare place tokens = .ok next) :
    next.lastPlace = destinations.lastPlace := by
  unfold declare at declared
  split at declared
  · split at declared
    · simp at declared
    · simp only [Except.ok.injEq] at declared
      rw [← declared]
  · simp only [Except.ok.injEq] at declared
    rw [declared]

/-- The table gets the pairs that the pass finds, and nothing else. -/
theorem closings_collect {tokens : List Token}
    (collected : collect destinations blocks place tokens = .ok final) :
    final.closings = destinations.closings ++ pairs blocks place tokens ∧
      final.lastPlace = destinations.lastPlace := by
  induction tokens generalizing destinations blocks place with
  | nil =>
      simp only [collect, Except.ok.injEq] at collected
      simp [← collected, pairs]
  | cons token rest induction =>
      -- a step that notes some pairs is followed by the rest of the pass
      have onward : ∀ next : Destinations,
          next.closings = destinations.closings ++ pairsAt blocks place token →
          next.lastPlace = destinations.lastPlace →
          collect next (openAfter blocks place token) (place + 1) rest = .ok final →
          final.closings = destinations.closings ++ pairs blocks place (token :: rest) ∧
            final.lastPlace = destinations.lastPlace := by
        intro next noted same further
        obtain ⟨closings, lastPlace⟩ := induction further
        rw [closings, noted, lastPlace, same, List.append_assoc]
        exact ⟨rfl, rfl⟩
      obtain ⟨lexeme, text, line⟩ := token
      unfold collect at collected
      split at collected
      · next word =>
        obtain rfl : lexeme = _ := word
        exact onward destinations (by simp [pairsAt]) rfl collected
      · next word =>
        obtain rfl : lexeme = _ := word
        exact onward destinations (by simp [pairsAt]) rfl collected
      · next word =>
        obtain rfl : lexeme = _ := word
        rw [close_eq] at collected
        exact onward { destinations with
          closings := destinations.closings ++ pairOf .conditional place blocks } rfl rfl collected
      · next word =>
        obtain rfl : lexeme = _ := word
        rw [close_eq] at collected
        exact onward { destinations with
          closings := destinations.closings ++ pairOf .loop place blocks } rfl rfl collected
      · next word =>
        obtain rfl : lexeme = _ := word
        split at collected
        · simp at collected
        · next next declared =>
          have same := (declare_eq_ok declared).1
          exact onward next (by simp [same, pairsAt]) (lastPlace_declare declared) collected
      · next noIf noWhile noEndif noEndwhile noLabel =>
        have unchanged : pairsAt blocks place ⟨lexeme, text, line⟩ = [] ∧
            openAfter blocks place ⟨lexeme, text, line⟩ = blocks := by
          simp_all [pairsAt, openAfter]
        rw [← unchanged.2] at collected
        exact onward destinations (by simp [unchanged.1]) rfl collected

theorem mem_pairs_iff {tokens : List Token} {opener closing : Nat} :
    (opener, closing) ∈ pairs blocks place tokens ↔
      ∃ taken token rest block outer, tokens = taken ++ token :: rest ∧
        token.kind = .keyword (Block.closer block) ∧
        openBlocks blocks place taken = (block, opener) :: outer ∧
        closing = place + taken.length := by
  induction tokens generalizing blocks place with
  | nil => simp [pairs]
  | cons token rest induction =>
      rw [pairs, List.mem_append, induction]
      constructor
      · rintro (here | ⟨taken, other, rest', block, outer, rfl, closes, opened, rfl⟩)
        · rcases openAfter_cases blocks place token with
            ⟨_, -, none, -⟩ | ⟨block, opener', outer, closes, same, pair, -⟩ | ⟨none, -⟩
          · simp [none] at here
          · rw [pair, List.mem_singleton, Prod.mk.injEq] at here
            obtain ⟨rfl, rfl⟩ := here
            exact ⟨[], token, rest, block, outer, rfl, closes, same, rfl⟩
          · simp [none] at here
        · refine ⟨token :: taken, other, rest', block, outer, rfl, closes, opened, ?_⟩
          rw [List.length_cons]
          omega
      · rintro ⟨taken, other, rest', block, outer, split, closes, opened, rfl⟩
        cases taken with
        | nil =>
            simp only [List.nil_append, List.cons.injEq] at split
            obtain ⟨rfl, rfl⟩ := split
            have same : blocks = (block, opener) :: outer := opened
            left
            rw [pairsAt_closer closes, same]
            simp [pairOf]
        | cons first taken =>
            simp only [List.cons_append, List.cons.injEq] at split
            obtain ⟨rfl, rfl⟩ := split
            right
            refine ⟨taken, other, rest', block, outer, rfl, closes, opened, ?_⟩
            rw [List.length_cons]
            omega

/-- Every place opens at most one block, which is open or closed once, and all of them lie before
the current place. -/
theorem nodup_pairs {closed : List (Nat × Nat)} {tokens : List Token}
    (distinct : (closed.map Prod.fst ++ blocks.map Prod.snd).Nodup)
    (before : ∀ opener ∈ closed.map Prod.fst ++ blocks.map Prod.snd, opener < place) :
    ((closed ++ pairs blocks place tokens).map Prod.fst).Nodup := by
  induction tokens generalizing closed blocks place with
  | nil =>
      simp only [pairs, List.append_nil]
      exact (List.nodup_append.mp distinct).1
  | cons token rest induction =>
      rw [pairs, ← List.append_assoc]
      rcases openAfter_cases blocks place token with
        ⟨block, -, none, opened⟩ | ⟨block, opener, outer, -, same, pair, left⟩ |
        ⟨none, unchanged⟩
      · rw [none, opened, List.append_nil]
        have fresh : place ∉ closed.map Prod.fst ++ blocks.map Prod.snd := by
          intro member
          exact Nat.lt_irrefl _ (before place member)
        apply induction
        · rw [List.map_cons, List.perm_middle.nodup_iff, List.nodup_cons]
          exact ⟨fresh, distinct⟩
        · intro other member
          rw [List.map_cons, List.perm_middle.mem_iff, List.mem_cons] at member
          rcases member with rfl | member
          · exact Nat.lt_succ_self _
          · exact Nat.lt_succ_of_lt (before other member)
      · -- the innermost block goes from the open ones to the closed ones
        have moved : (closed ++ [(opener, place)]).map Prod.fst ++ outer.map Prod.snd =
            closed.map Prod.fst ++ blocks.map Prod.snd := by
          simp [same]
        rw [pair, left]
        apply induction
        · rw [moved]
          exact distinct
        · rw [moved]
          intro other member
          exact Nat.lt_succ_of_lt (before other member)
      · rw [none, unchanged, List.append_nil]
        apply induction distinct
        intro other member
        exact Nat.lt_succ_of_lt (before other member)

theorem find?_fst_eq_some_iff {entries : List (Nat × Nat)} (distinct : (entries.map Prod.fst).Nodup)
    {opener closing : Nat} :
    (entries.find? (·.1 = opener)).map Prod.snd = some closing ↔ (opener, closing) ∈ entries := by
  induction entries with
  | nil => simp
  | cons entry entries induction =>
      obtain ⟨first, second⟩ := entry
      rw [List.map_cons, List.nodup_cons] at distinct
      by_cases same : first = opener
      · subst same
        have absent : ∀ other, (first, other) ∉ entries := by
          intro other member
          exact distinct.1 (List.mem_map.mpr ⟨_, member, rfl⟩)
        simp [absent, eq_comm]
      · have other : ¬ opener = first := fun equal => same equal.symm
        simp [same, other, induction distinct.2]

/-- The table names a place as the end of a block exactly if the word there closes the innermost
block that is open in front of it. -/
theorem closer?_eq_some_iff {tokens : List Token} {lastPlace : Int} {opener closing : Nat}
    (collected : collect ⟨[], [], lastPlace⟩ [] 0 tokens = .ok final) :
    final.closer? opener = some closing ↔
      ∃ taken token rest block outer, tokens = taken ++ token :: rest ∧
        token.kind = .keyword (Block.closer block) ∧
        openBlocks [] 0 taken = (block, opener) :: outer ∧ closing = taken.length := by
  have noted : final.closings = pairs [] 0 tokens := (closings_collect collected).1
  have distinct : ((pairs [] 0 tokens).map Prod.fst).Nodup := by
    have all := @nodup_pairs [] 0 [] tokens
    exact all (by simp) (by simp)
  rw [closer?, noted, find?_fst_eq_some_iff distinct, mem_pairs_iff]
  simp only [Nat.zero_add]

/-- An open block was open before, or it was opened where exactly the blocks below it were open. -/
theorem openBlocks_eq_append {tokens : List Token} {inner outer : List (Block × Nat)}
    {block : Block} {opener : Nat}
    (opened : openBlocks blocks place tokens = inner ++ (block, opener) :: outer) :
    (∃ inner', blocks = inner' ++ (block, opener) :: outer) ∨
      ∃ count, count < tokens.length ∧ opener = place + count ∧
        openBlocks blocks place (tokens.take count) = outer := by
  induction tokens generalizing blocks place with
  | nil => exact .inl ⟨inner, opened⟩
  | cons token rest induction =>
      rcases induction opened with ⟨inner', known⟩ | ⟨count, within, rfl, below⟩
      · rcases openAfter_cases blocks place token with
          ⟨block', -, -, opens⟩ | ⟨block', opener', outer', -, same, -, leaves⟩ | ⟨-, unchanged⟩
        · rw [opens] at known
          cases inner' with
          | nil =>
              simp only [List.nil_append, List.cons.injEq, Prod.mk.injEq] at known
              obtain ⟨⟨rfl, rfl⟩, rfl⟩ := known
              exact .inr ⟨0, by simp, rfl, rfl⟩
          | cons first inner' =>
              simp only [List.cons_append, List.cons.injEq] at known
              exact .inl ⟨inner', known.2⟩
        · rw [leaves] at known
          exact .inl ⟨(block', opener') :: inner', by rw [same, known, List.cons_append]⟩
        · rw [unchanged] at known
          exact .inl ⟨inner', known⟩
      · refine .inr ⟨count + 1, ?_, ?_, below⟩
        · rw [List.length_cons]
          omega
        · omega

end Destinations

/-- No block is opened or closed between the tokens in front and `rest`. -/
def Quiet (tokens rest : List Token) : Prop :=
  ∃ taken, tokens = taken ++ rest ∧ ∀ token ∈ taken, ∀ block : Block,
    token.kind ≠ .keyword block.opener ∧ token.kind ≠ .keyword block.closer

namespace Quiet

variable {tokens middle rest : List Token}

theorem of_passes (passes : Grammar.Passes tokens rest) : Quiet tokens rest := by
  obtain ⟨taken, rfl, plain⟩ := passes
  refine ⟨taken, rfl, ?_⟩
  intro token member block
  have noWord := plain token member
  constructor
  · intro same
    exact noWord _ (Lexeme.eq_keyword_of_kind same)
  · intro same
    exact noWord _ (Lexeme.eq_keyword_of_kind same)

theorem suffix (quiet : Quiet tokens rest) : rest <:+ tokens := by
  obtain ⟨taken, rfl, -⟩ := quiet
  exact List.suffix_append taken rest

theorem trans (first : Quiet tokens middle) (second : Quiet middle rest) : Quiet tokens rest := by
  obtain ⟨taken, rfl, plain⟩ := first
  obtain ⟨further, rfl, plain'⟩ := second
  refine ⟨taken ++ further, by simp, ?_⟩
  intro token member
  rcases List.mem_append.mp member with member | member
  · exact plain token member
  · exact plain' token member

theorem cons {token : Token} (other : ∀ block : Block,
    token.kind ≠ .keyword block.opener ∧ token.kind ≠ .keyword block.closer)
    (quiet : Quiet tokens rest) : Quiet (token :: tokens) rest := by
  obtain ⟨taken, rfl, plain⟩ := quiet
  refine ⟨token :: taken, rfl, ?_⟩
  intro other' member
  rcases List.mem_cons.mp member with rfl | member
  · exact other
  · exact plain other' member

theorem separator (block : Block) (text : String) (line : Int) :
    Quiet (⟨.keyword block.separator, text, line⟩ :: rest) rest := by
  refine cons ?_ ⟨[], rfl, by simp⟩
  intro other
  cases block <;> cases other <;>
    simp [Token.kind, Lexeme.kind, Block.separator, Block.opener, Block.closer]

end Quiet

/-- The blocks that the pass through all tokens has open in front of the last ones. -/
def OpenAt (tokens rest : List Token) (blocks : List (Block × Nat)) : Prop :=
  ∃ taken, tokens = taken ++ rest ∧ Destinations.openBlocks [] 0 taken = blocks

namespace OpenAt

variable {tokens rest : List Token} {blocks : List (Block × Nat)}

theorem exists_of_suffix (suffix : rest <:+ tokens) : ∃ blocks, OpenAt tokens rest blocks := by
  obtain ⟨taken, rfl⟩ := suffix
  exact ⟨_, taken, rfl, rfl⟩

theorem unique {others : List (Block × Nat)} (opened : OpenAt tokens rest blocks)
    (opened' : OpenAt tokens rest others) : blocks = others := by
  obtain ⟨taken, rfl, rfl⟩ := opened
  obtain ⟨taken', same, rfl⟩ := opened'
  rw [List.append_cancel_right same]

theorem cons {token : Token} (opened : OpenAt tokens (token :: rest) blocks) :
    OpenAt tokens rest
      (Destinations.openAfter blocks (tokens.length - (token :: rest).length) token) := by
  obtain ⟨taken, rfl, rfl⟩ := opened
  refine ⟨taken ++ [token], by simp, ?_⟩
  rw [Destinations.openBlocks_append]
  simp [Destinations.openBlocks]

/-- Where no block is opened or closed, the open blocks stay as they are. -/
theorem quiet {middle : List Token} (opened : OpenAt tokens middle blocks)
    (quiet : Quiet middle rest) : OpenAt tokens rest blocks := by
  obtain ⟨taken, rfl, plain⟩ := quiet
  induction taken with
  | nil => exact opened
  | cons token taken induction =>
      have next : OpenAt tokens (taken ++ rest) blocks := by
        have behind := opened.cons
        rwa [Destinations.openAfter_other (plain token List.mem_cons_self)] at behind
      exact induction (fun other member => plain other (List.mem_cons_of_mem _ member)) next

theorem opener {token : Token} {block : Block} (opened : OpenAt tokens (token :: rest) blocks)
    (opens : token.kind = .keyword block.opener) :
    OpenAt tokens rest ((block, tokens.length - (token :: rest).length) :: blocks) := by
  have next := opened.cons
  rwa [Destinations.openAfter_opener opens] at next

theorem closer {token : Token} {block : Block} {place : Nat}
    (opened : OpenAt tokens (token :: rest) ((block, place) :: blocks))
    (closes : token.kind = .keyword block.closer) : OpenAt tokens rest blocks := by
  have next := opened.cons
  rw [Destinations.openAfter_closer closes] at next
  simpa [Destinations.leave] using next

@[simp] theorem drop_length (opened : OpenAt tokens rest blocks) :
    tokens.drop (tokens.length - rest.length) = rest := by
  obtain ⟨taken, rfl, -⟩ := opened
  simp

/-- Where an open block was opened, the blocks around it were open. -/
theorem reopen (inner : List (Block × Nat)) {block : Block} {place : Nat}
    (opened : OpenAt tokens rest (inner ++ (block, place) :: blocks)) :
    OpenAt tokens (tokens.drop place) blocks := by
  obtain ⟨taken, rfl, stack⟩ := opened
  rcases Destinations.openBlocks_eq_append stack with ⟨inner', none⟩ | ⟨count, within, rfl, below⟩
  · simp at none
  · refine ⟨taken.take count, ?_, below⟩
    rw [Nat.zero_add]
    conv => lhs; rw [← List.take_append_drop count (taken ++ rest)]
    rw [List.take_append_of_le_length (Nat.le_of_lt within)]

/-- The table pairs a closing word with the innermost block that is open in front of it. -/
theorem closer?_eq {token : Token} {block : Block} {place : Nat} {lastPlace : Int}
    {final : Destinations}
    (opened : OpenAt tokens (token :: rest) ((block, place) :: blocks))
    (closes : token.kind = .keyword block.closer)
    (collected : Destinations.collect ⟨[], [], lastPlace⟩ [] 0 tokens = .ok final) :
    final.closer? place = some (tokens.length - (token :: rest).length) := by
  obtain ⟨taken, rfl, stack⟩ := opened
  rw [Destinations.closer?_eq_some_iff collected]
  exact ⟨taken, token, rest, block, blocks, rfl, closes, stack, by simp⟩

/-- Behind the place that the table gives for a block, the blocks around it are open again. -/
theorem behind_closer {token : Token} {place closing : Nat} {lastPlace : Int}
    {last : List Token} {final : Destinations}
    (opened : OpenAt tokens rest blocks) (here : place = tokens.length - rest.length)
    (collected : Destinations.collect ⟨[], [], lastPlace⟩ [] 0 tokens = .ok final)
    (found : final.closer? place = some closing)
    (ends : tokens.drop closing = token :: last) : OpenAt tokens last blocks := by
  rw [Destinations.closer?_eq_some_iff collected] at found
  obtain ⟨taken, token', rest', block', outer, rfl, closes', stack, rfl⟩ := found
  rw [List.drop_left, List.cons.injEq] at ends
  obtain ⟨rfl, rfl⟩ := ends
  have stacked : OpenAt (taken ++ token' :: rest') (token' :: rest') ((block', place) :: outer) :=
    ⟨taken, rfl, stack⟩
  -- the block was opened here, so the blocks around it are those that are open here
  have around : OpenAt (taken ++ token' :: rest') rest outer := by
    have reopened := stacked.reopen []
    rwa [here, opened.drop_length] at reopened
  have same : outer = blocks := around.unique opened
  rw [← same]
  exact stacked.closer closes'

end OpenAt

end TeenyBasic
