import TeenyBasic.Proofs.CursorSafety

/-!
# Pairs of words

The table of jumps pairs the words of blocks in tokens of any shape, and neither a word that fits
nothing nor a block that nothing closes stops it.  Whatever the tokens are, the pairs nest
(`Nests`): a block that is opened between the words of a pair is closed between them, since a
closing word is paired with the innermost open block only.  And where the words between two places
are well nested (`Nested`), they are paired with one another, whatever stands around them
(`PairedBy`).
-/

namespace TeenyBasic

def OpensAt (tokens : List Token) (place : Nat) (block : Block) : Prop :=
  ∃ token, tokens[place]? = some token ∧ token.kind = .keyword block.opener

def ClosesAt (tokens : List Token) (place : Nat) (block : Block) : Prop :=
  ∃ token, tokens[place]? = some token ∧ token.kind = .keyword block.closer

/-- The pairs are an opening word and a closing word each, and they nest. -/
structure Nests (tokens : List Token) (pairs : List (Nat × Nat)) : Prop where
  /-- No word is the opening word of two pairs. -/
  distinct : (pairs.map Prod.fst).Nodup
  words : ∀ opener closer, (opener, closer) ∈ pairs → opener < closer ∧
    ∃ block, OpensAt tokens opener block ∧ ClosesAt tokens closer block
  /-- No word is the closing word of two pairs. -/
  once : ∀ opener other closer, (opener, closer) ∈ pairs → (other, closer) ∈ pairs →
    opener = other
  apart : ∀ first last first' last', (first, last) ∈ pairs → (first', last') ∈ pairs →
    (first, last) = (first', last') ∨ last < first' ∨ last' < first ∨
      (first < first' ∧ last' < last) ∨ (first' < first ∧ last < last')
  /-- A block that is opened inside a pair is closed inside it. -/
  inside : ∀ opener closer inner block, (opener, closer) ∈ pairs → opener < inner →
    inner < closer → OpensAt tokens inner block → ∃ last, (inner, last) ∈ pairs ∧ last < closer

/-- Tokens whose words of blocks are well nested, with the pairs that these words make.  The places
are counted from that of the first token. -/
inductive Nested : Nat → List Token → List (Nat × Nat) → Prop
  | nil {place} : Nested place [] []
  | other {place token rest matching} :
      (∀ block : Block, token.kind ≠ .keyword block.opener ∧ token.kind ≠ .keyword block.closer) →
      Nested (place + 1) rest matching →
      Nested place (token :: rest) matching
  | block {place block opening closing inner rest innerMatching matching} :
      opening.kind = .keyword (Block.opener block) →
      Nested (place + 1) inner innerMatching →
      closing.kind = .keyword block.closer →
      Nested (place + 1 + inner.length + 1) rest matching →
      Nested place (opening :: (inner ++ closing :: rest))
        ((place, place + 1 + inner.length) :: (innerMatching ++ matching))

/-- From `start` up to `stop` all words of blocks are paired as the matching says, and with no word
elsewhere. -/
structure PairedBy (tokens : List Token) (pairs matching : List (Nat × Nat)) (start stop : Nat) :
    Prop where
  openers : ∀ place block, start ≤ place → place < stop → OpensAt tokens place block →
    ∃ closer, (place, closer) ∈ matching
  closers : ∀ place block, start ≤ place → place < stop → ClosesAt tokens place block →
    ∃ opener, (opener, place) ∈ matching
  within : ∀ opener closer, (opener, closer) ∈ matching → start ≤ opener ∧ closer < stop
  exactly : ∀ opener closer, (start ≤ opener ∧ opener < stop) ∨ (start ≤ closer ∧ closer < stop) →
    ((opener, closer) ∈ pairs ↔ (opener, closer) ∈ matching)

namespace Destinations

variable {blocks : List (Block × Nat)} {place : Nat} {tokens : List Token}

theorem pairs_append (first second : List Token) :
    pairs blocks place (first ++ second) =
      pairs blocks place first ++
        pairs (openBlocks blocks place first) (place + first.length) second := by
  induction first generalizing blocks place with
  | nil => rfl
  | cons token first induction =>
    simp only [List.cons_append, pairs, openBlocks, induction, List.append_assoc, List.length_cons]
    rw [Nat.add_right_comm, Nat.add_assoc]

theorem closer_of_mem_pairs {opener closer : Nat}
    (member : (opener, closer) ∈ pairs blocks place tokens) :
    place ≤ closer ∧ closer < place + tokens.length := by
  obtain ⟨taken, token, rest, -, -, rfl, -, -, rfl⟩ := mem_pairs_iff.mp member
  rw [List.length_append, List.length_cons]
  omega

theorem opener_of_mem_pairs {opener closer : Nat}
    (member : (opener, closer) ∈ pairs blocks place tokens) :
    (∃ block, (block, opener) ∈ blocks) ∨ place ≤ opener ∧ opener < closer := by
  obtain ⟨taken, token, rest, block, outer, rfl, -, stack, rfl⟩ := mem_pairs_iff.mp member
  have top : (block, opener) ∈ openBlocks blocks place taken := by
    rw [stack]
    exact List.mem_cons_self
  rcases opener_of_mem_openBlocks top with known | ⟨count, token', rfl, there, -⟩
  · exact .inl ⟨block, known⟩
  · obtain ⟨bound, -⟩ := List.getElem?_eq_some_iff.mp there
    exact .inr ⟨by omega, by omega⟩

private theorem opener_lt_of_mem_openBlocks {block : Block} {opener : Nat}
    (member : (block, opener) ∈ openBlocks [] 0 tokens) : opener < tokens.length := by
  rcases opener_of_mem_openBlocks member with none | ⟨count, token, rfl, there, -⟩
  · cases none
  · obtain ⟨bound, -⟩ := List.getElem?_eq_some_iff.mp there
    omega

theorem words_of_mem_pairs {opener closer : Nat} (member : (opener, closer) ∈ pairs [] 0 tokens) :
    ∃ block, OpensAt tokens opener block ∧ ClosesAt tokens closer block := by
  obtain ⟨taken, token, rest, block, outer, rfl, closes, stack, rfl⟩ := mem_pairs_iff.mp member
  have top : (block, opener) ∈ openBlocks [] 0 taken := by
    rw [stack]
    exact List.mem_cons_self
  rcases opener_of_mem_openBlocks top with none | ⟨count, opening, rfl, there, opens⟩
  · cases none
  · refine ⟨block, ⟨opening, ?_, opens⟩, token, ?_, closes⟩
    · rw [Nat.zero_add, List.getElem?_append_left (List.getElem?_eq_some_iff.mp there).1, there]
    · simp

private theorem opener_unique {opener other closer : Nat}
    (member : (opener, closer) ∈ pairs blocks place tokens)
    (member' : (other, closer) ∈ pairs blocks place tokens) : opener = other := by
  obtain ⟨taken, token, rest, block, outer, rfl, -, stack, rfl⟩ := mem_pairs_iff.mp member
  obtain ⟨taken', token', rest', block', outer', split, -, stack', same⟩ :=
    mem_pairs_iff.mp member'
  obtain ⟨rfl, -⟩ := List.append_inj split (by omega)
  rw [stack, List.cons.injEq, Prod.mk.injEq] at stack'
  exact stack'.1.2

/-- An open block stays open, below blocks that are opened later, or it is closed. -/
theorem open_or_closed {inner outer : List (Block × Nat)} {block : Block} {opener : Nat}
    (stack : blocks = inner ++ (block, opener) :: outer) :
    (∃ inner', openBlocks blocks place tokens = inner' ++ (block, opener) :: outer ∧
      ∀ entry ∈ inner', entry ∈ inner ∨ place ≤ entry.2) ∨
    ∃ closer, (opener, closer) ∈ pairs blocks place tokens := by
  induction tokens generalizing blocks place inner with
  | nil => exact .inl ⟨inner, stack, fun _ => .inl⟩
  | cons token rest induction =>
    -- the blocks above this one may change, as long as they are opened from here on
    have onward {above : List (Block × Nat)}
        (after : openAfter blocks place token = above ++ (block, opener) :: outer)
        (newer : ∀ entry ∈ above, entry ∈ inner ∨ place ≤ entry.2) :
        (∃ inner', openBlocks blocks place (token :: rest) = inner' ++ (block, opener) :: outer ∧
          ∀ entry ∈ inner', entry ∈ inner ∨ place ≤ entry.2) ∨
        ∃ closer, (opener, closer) ∈ pairs blocks place (token :: rest) := by
      rcases induction after with ⟨inner', same, entries⟩ | ⟨closer, member⟩
      · refine .inl ⟨inner', same, fun entry member => ?_⟩
        rcases entries entry member with known | later
        · exact newer entry known
        · exact .inr (by omega)
      · exact .inr ⟨closer, List.mem_append_right _ member⟩
    rcases openAfter_cases blocks place token with
      ⟨block', -, -, opened⟩ | ⟨block', opener', outer', -, same, pair, left⟩ | ⟨-, unchanged⟩
    · refine @onward ((block', place) :: inner) (by rw [opened, stack, List.cons_append]) ?_
      intro entry member
      rcases List.mem_cons.mp member with rfl | member
      · exact .inr (Nat.le_refl place)
      · exact .inl member
    · rw [stack] at same
      cases inner with
      | nil =>
        obtain ⟨entry, -⟩ := List.cons.inj same
        obtain ⟨-, rfl⟩ := Prod.mk.inj entry
        refine .inr ⟨place, List.mem_append_left _ ?_⟩
        rw [pair]
        exact List.mem_singleton_self _
      | cons first inner =>
        obtain ⟨-, rfl⟩ := List.cons.inj same
        exact onward left fun entry member => .inl (List.mem_cons_of_mem _ member)
    · exact onward (unchanged.trans stack) fun _ => .inl

theorem exists_pair_inside {opener closer inner : Nat} {block : Block}
    (member : (opener, closer) ∈ pairs [] 0 tokens) (behind : opener < inner)
    (before : inner < closer) (opens : OpensAt tokens inner block) :
    ∃ last, (inner, last) ∈ pairs [] 0 tokens ∧ last < closer := by
  obtain ⟨taken, token, rest, block', outer, rfl, -, stack, rfl⟩ := mem_pairs_iff.mp member
  rw [Nat.zero_add] at before
  obtain ⟨opening, there, opens⟩ := opens
  rw [List.getElem?_append_left before] at there
  obtain ⟨bound, isOpening⟩ := List.getElem?_eq_some_iff.mp there
  have cut : taken = taken.take inner ++ opening :: taken.drop (inner + 1) := by
    rw [← isOpening, List.getElem_cons_drop, List.take_append_drop]
  have length : (taken.take inner).length = inner := List.length_take_of_le (Nat.le_of_lt before)
  have opened : openBlocks [] 0 taken = openBlocks
      ((block, inner) :: openBlocks [] 0 (taken.take inner)) (inner + 1)
        (taken.drop (inner + 1)) := by
    conv => lhs; rw [cut]
    rw [openBlocks_append, openBlocks, length, Nat.zero_add, openAfter_opener opens]
  rcases @open_or_closed _ (inner + 1) (taken.drop (inner + 1)) []
    (openBlocks [] 0 (taken.take inner)) block inner rfl with
    ⟨above, same, newer⟩ | ⟨last, closed⟩
  · -- the pair's block would be the one opened inside, or one opened later
    rw [List.nil_append, ← opened, stack] at same
    cases above with
    | nil =>
      obtain ⟨entry, -⟩ := List.cons.inj same
      obtain ⟨-, rfl⟩ := Prod.mk.inj entry
      omega
    | cons first above =>
      obtain ⟨rfl, -⟩ := List.cons.inj same
      rcases newer _ List.mem_cons_self with none | later
      · cases none
      · have : inner + 1 ≤ opener := later
        omega
  · refine ⟨last, ?_, ?_⟩
    · rw [pairs_append, List.mem_append]
      refine .inl ?_
      rw [cut, pairs_append, List.mem_append, length, Nat.zero_add]
      refine .inr (List.mem_append_right _ ?_)
      rw [openAfter_opener opens]
      exact closed
    · have := (closer_of_mem_pairs closed).2
      rw [List.length_drop] at this
      omega

/-- The pairs that are found nest. -/
theorem nests_pairs (tokens : List Token) : Nests tokens (pairs [] 0 tokens) := by
  have distinct : ((pairs [] 0 tokens).map Prod.fst).Nodup := by
    have all := @nodup_pairs [] 0 [] tokens
    exact all (by simp) (by simp)
  have ordered {opener closer : Nat} (member : (opener, closer) ∈ pairs [] 0 tokens) :
      opener < closer := by
    rcases opener_of_mem_pairs member with ⟨_, none⟩ | ⟨-, below⟩
    · cases none
    · exact below
  -- of two pairs, the one that begins later lies inside the other one or behind it
  have later {first last first' last' : Nat} (member : (first, last) ∈ pairs [] 0 tokens)
      (member' : (first', last') ∈ pairs [] 0 tokens) (behind : first < first') :
      last < first' ∨ last' < last := by
    obtain ⟨block, opens, closes⟩ := words_of_mem_pairs member'
    obtain ⟨block', opens', closes'⟩ := words_of_mem_pairs member
    rcases Nat.lt_trichotomy last first' with before | same | inside
    · exact .inl before
    · obtain ⟨closing, there, closing_eq⟩ := closes'
      obtain ⟨opening, there', opening_eq⟩ := opens
      rw [same, there', Option.some.injEq] at there
      rw [← there, opening_eq] at closing_eq
      cases block <;> cases block' <;> cases closing_eq
    · obtain ⟨last'', inner, below⟩ := exists_pair_inside member behind inside opens
      have closer := (find?_fst_eq_some_iff distinct).mpr member'
      rw [(find?_fst_eq_some_iff distinct).mpr inner, Option.some.injEq] at closer
      exact .inr (closer ▸ below)
  refine ⟨distinct, fun _ _ member => ⟨ordered member, words_of_mem_pairs member⟩,
    fun _ _ _ => opener_unique, ?_, fun _ _ _ _ => exists_pair_inside⟩
  intro first last first' last' member member'
  rcases Nat.lt_trichotomy first first' with before | rfl | behind
  · rcases later member member' before with apart | inside
    · exact .inr (.inl apart)
    · exact .inr (.inr (.inr (.inl ⟨before, inside⟩)))
  · have closer := (find?_fst_eq_some_iff distinct).mpr member'
    rw [(find?_fst_eq_some_iff distinct).mpr member, Option.some.injEq] at closer
    exact .inl (by rw [closer])
  · rcases later member' member behind with apart | inside
    · exact .inr (.inr (.inl apart))
    · exact .inr (.inr (.inr (.inr ⟨behind, inside⟩)))

end Destinations

namespace Nested

open Destinations

variable {blocks : List (Block × Nat)} {place : Nat} {tokens : List Token}
  {matching : List (Nat × Nat)}

theorem openBlocks_eq (nested : Nested place tokens matching) :
    openBlocks blocks place tokens = blocks := by
  induction nested generalizing blocks with
  | nil => rfl
  | other plain _ induction =>
    rw [openBlocks, openAfter_other plain]
    exact induction
  | block opens _ closes _ innerInduction induction =>
    rw [openBlocks, openAfter_opener opens, openBlocks_append, innerInduction, openBlocks,
      openAfter_closer closes, leave, if_pos rfl]
    exact induction

theorem mem_pairs_iff (nested : Nested place tokens matching) {pair : Nat × Nat} :
    pair ∈ pairs blocks place tokens ↔ pair ∈ matching := by
  induction nested generalizing blocks with
  | nil => rfl
  | @other place token rest matching plain _ induction =>
    have nothing : pairsAt blocks place token = [] := by
      rcases openAfter_cases blocks place token with
        ⟨block, opens, -⟩ | ⟨block, _, _, closes, -⟩ | ⟨none, -⟩
      · exact absurd opens (plain block).1
      · exact absurd closes (plain block).2
      · exact none
    rw [pairs, nothing, openAfter_other plain]
    exact induction
  | @block place block opening closing inner rest innerMatching matching opens nested closes _
      innerInduction induction =>
    have nothing : pairsAt blocks place opening = [] := by
      obtain ⟨lexeme, text, line⟩ := opening
      obtain rfl : lexeme = _ := Lexeme.eq_keyword_of_kind opens
      cases block <;> rfl
    rw [pairs, nothing, openAfter_opener opens, pairs_append, nested.openBlocks_eq, pairs,
      openAfter_closer closes, pairsAt_closer closes, leave, pairOf, if_pos rfl, if_pos rfl]
    simp only [List.nil_append, List.mem_append, List.mem_cons, List.not_mem_nil, or_false,
      innerInduction, induction]
    exact or_left_comm

theorem within (nested : Nested place tokens matching) {opener closer : Nat}
    (member : (opener, closer) ∈ matching) : place ≤ opener ∧ closer < place + tokens.length := by
  have found : (opener, closer) ∈ pairs [] place tokens := nested.mem_pairs_iff.mpr member
  refine ⟨?_, (closer_of_mem_pairs found).2⟩
  rcases opener_of_mem_pairs found with ⟨_, none⟩ | ⟨below, -⟩
  · cases none
  · exact below

/-- Every word of a block is in the matching. -/
theorem exists_pair (nested : Nested place tokens matching) {count : Nat} {token : Token}
    (there : tokens[count]? = some token) (block : Block) :
    (token.kind = .keyword block.opener → ∃ closer, (place + count, closer) ∈ matching) ∧
      (token.kind = .keyword block.closer → ∃ opener, (opener, place + count) ∈ matching) := by
  induction nested generalizing count with
  | nil => simp at there
  | @other place first rest matching plain _ induction =>
    cases count with
    | zero =>
      obtain rfl := Option.some.inj there
      exact ⟨fun opens => absurd opens (plain block).1, fun closes => absurd closes (plain block).2⟩
    | succ count =>
      rw [← Nat.add_assoc, Nat.add_right_comm]
      exact induction there
  | @block place block' opening closing inner rest innerMatching matching opens _ closes _
      innerInduction induction =>
    cases count with
    | zero =>
      obtain rfl := Option.some.inj there
      refine ⟨fun _ => ⟨_, List.mem_cons_self⟩, fun closes' => ?_⟩
      rw [opens] at closes'
      cases block <;> cases block' <;> cases closes'
    | succ count =>
      rw [List.getElem?_cons_succ] at there
      rcases Nat.lt_trichotomy count inner.length with before | rfl | behind
      · rw [List.getElem?_append_left before] at there
        obtain ⟨openers, closers⟩ := innerInduction there
        rw [Nat.add_right_comm, Nat.add_assoc] at openers closers
        refine ⟨fun isOpener => ?_, fun isCloser => ?_⟩
        · obtain ⟨closer, member⟩ := openers isOpener
          exact ⟨closer, List.mem_cons_of_mem _ (List.mem_append_left _ member)⟩
        · obtain ⟨opener, member⟩ := closers isCloser
          exact ⟨opener, List.mem_cons_of_mem _ (List.mem_append_left _ member)⟩
      · rw [List.getElem?_append_right (Nat.le_refl _), Nat.sub_self] at there
        obtain rfl := Option.some.inj there
        refine ⟨fun opens' => ?_, fun _ => ⟨place, ?_⟩⟩
        · rw [closes] at opens'
          cases block <;> cases block' <;> cases opens'
        · rw [← Nat.add_assoc, Nat.add_right_comm]
          exact List.mem_cons_self
      · obtain ⟨further, rfl⟩ : ∃ further, count = inner.length + (further + 1) :=
          ⟨count - inner.length - 1, by omega⟩
        rw [List.getElem?_append_right (Nat.le_add_right _ _), Nat.add_sub_cancel_left,
          List.getElem?_cons_succ] at there
        obtain ⟨openers, closers⟩ := induction there
        have shape : place + 1 + inner.length + 1 + further =
            place + (inner.length + (further + 1) + 1) := by omega
        rw [shape] at openers closers
        refine ⟨fun isOpener => ?_, fun isCloser => ?_⟩
        · obtain ⟨closer, member⟩ := openers isOpener
          exact ⟨closer, List.mem_cons_of_mem _ (List.mem_append_right _ member)⟩
        · obtain ⟨opener, member⟩ := closers isCloser
          exact ⟨opener, List.mem_cons_of_mem _ (List.mem_append_right _ member)⟩

/-- Well nested words are paired with one another, whatever stands around them. -/
theorem pairedBy {before interval : List Token} (nested : Nested before.length interval matching)
    (after : List Token) :
    PairedBy (before ++ interval ++ after) (pairs [] 0 (before ++ interval ++ after)) matching
      before.length (before.length + interval.length) := by
  have inInterval {place : Nat} {token : Token} (start : before.length ≤ place)
      (stop : place < before.length + interval.length)
      (there : (before ++ interval ++ after)[place]? = some token) :
      interval[place - before.length]? = some token ∧
        before.length + (place - before.length) = place := by
    rw [List.getElem?_append_left (by rwa [List.length_append]),
      List.getElem?_append_right start] at there
    exact ⟨there, by omega⟩
  refine ⟨?_, ?_, fun _ _ => nested.within, ?_⟩
  · rintro place block start stop ⟨token, there, opens⟩
    obtain ⟨there, same⟩ := inInterval start stop there
    rw [← same]
    exact (nested.exists_pair there block).1 opens
  · rintro place block start stop ⟨token, there, closes⟩
    obtain ⟨there, same⟩ := inInterval start stop there
    rw [← same]
    exact (nested.exists_pair there block).2 closes
  · intro opener closer inside
    rw [pairs_append, pairs_append, openBlocks_append, Nat.zero_add, nested.openBlocks_eq,
      Nat.zero_add, List.length_append, List.mem_append, List.mem_append, nested.mem_pairs_iff]
    constructor
    · rintro ((earlier | here) | later)
      · -- in front of the interval both words of a pair are
        have bound := (closer_of_mem_pairs earlier).2
        rcases opener_of_mem_pairs earlier with ⟨_, none⟩ | ⟨-, below⟩
        · cases none
        · omega
      · exact here
      · -- behind it the closing word is, and a block opened in the interval is closed by then
        have bound := (closer_of_mem_pairs later).1
        rcases opener_of_mem_pairs later with ⟨block, known⟩ | ⟨below, -⟩
        · have := opener_lt_of_mem_openBlocks known
          omega
        · omega
    · intro member
      exact .inl (.inr member)

end Nested

namespace Destinations

namespace Sample

/-- A loop and a conditional inside it; the words in front of them and behind them fit nothing. -/
def crossedTokens : List Token := [
  ⟨.keyword .ifWord, "IF", 1⟩, ⟨.keyword .endwhileWord, "ENDWHILE", 1⟩,
  ⟨.keyword .whileWord, "WHILE", 2⟩, ⟨.keyword .ifWord, "IF", 2⟩,
  ⟨.keyword .labelWord, "LABEL", 3⟩, ⟨.identifier "on", "on", 3⟩,
  ⟨.keyword .endifWord, "ENDIF", 4⟩, ⟨.keyword .endwhileWord, "ENDWHILE", 4⟩,
  ⟨.keyword .whileWord, "WHILE", 5⟩, ⟨.keyword .endifWord, "ENDIF", 5⟩]

theorem labelAt_crossedTokens {name : String} {place : Nat}
    (declared : LabelAt crossedTokens place name) : place = 4 := by
  have collected : collect ⟨[], [], 9⟩ [] 0 crossedTokens =
      .ok ⟨[(3, 6), (2, 7)], [("on", 4)], 9⟩ := rfl
  have member := mem_labels_of_label? ((label?_eq_some_iff collected).mpr declared)
  simp only [List.mem_singleton, Prod.mk.injEq] at member
  exact member.2

private theorem nested_crossedTokens :
    Nested 2 ((crossedTokens.drop 2).take 6) [(2, 7), (3, 6)] := by
  have label : Nested 4 [⟨.keyword .labelWord, "LABEL", 3⟩, ⟨.identifier "on", "on", 3⟩] [] :=
    .other (by intro block; cases block <;> decide)
      (.other (by intro block; cases block <;> decide) .nil)
  have conditional := @Nested.block 3 .conditional ⟨.keyword .ifWord, "IF", 2⟩
    ⟨.keyword .endifWord, "ENDIF", 4⟩ _ [] [] [] rfl label rfl .nil
  exact @Nested.block 2 .loop ⟨.keyword .whileWord, "WHILE", 2⟩
    ⟨.keyword .endwhileWord, "ENDWHILE", 4⟩ _ [] [(3, 6)] [] rfl conditional rfl .nil

end Sample

/-- If no label is declared twice, the words of blocks are paired: the pairs nest, and wherever some
words are well nested these are paired with one another, whatever stands around them. -/
theorem closings_nest_of_distinct {tokens : List Token}
    (distinct : ∀ name first second, LabelAt tokens first name → LabelAt tokens second name →
      first = second) :
    ∃ destinations, ofTokens tokens = .ok destinations ∧
      Nests tokens destinations.closings ∧
      ∀ before interval after matching, tokens = before ++ interval ++ after →
        Nested before.length interval matching →
        PairedBy tokens destinations.closings matching before.length
          (before.length + interval.length) := by
  obtain ⟨destinations, collected⟩ :=
    @exists_collect_of_distinct ⟨[], [], tokens.length - 1⟩ [] tokens [] distinct
      (by simp [LabelsBefore])
  have closings : destinations.closings = pairs [] 0 tokens :=
    (closings_collect collected).1
  refine ⟨destinations, collected, ?_, ?_⟩
  · rw [closings]
    exact nests_pairs tokens
  · intro before interval after matching split nested
    rw [closings, split]
    exact nested.pairedBy after

/-- The first `IF` is never closed and the last `ENDIF` closes nothing, and so with the words beside
them; the words between these are paired. -/
theorem closings_nest_of_distinct_crossed :
    ∃ destinations, ofTokens Sample.crossedTokens = .ok destinations ∧
      destinations.closings = [(3, 6), (2, 7)] ∧ Nests Sample.crossedTokens [(3, 6), (2, 7)] ∧
      PairedBy Sample.crossedTokens [(3, 6), (2, 7)] [(2, 7), (3, 6)] 2 8 := by
  obtain ⟨destinations, collected, nests, paired⟩ :=
    @closings_nest_of_distinct Sample.crossedTokens (by
      intro name first second declared declared'
      rw [Sample.labelAt_crossedTokens declared, Sample.labelAt_crossedTokens declared'])
  have computed : ofTokens Sample.crossedTokens =
      .ok ⟨[(3, 6), (2, 7)], [("on", 4)], 9⟩ := rfl
  obtain rfl := Except.ok.inj (computed.symm.trans collected)
  exact ⟨_, collected, rfl, nests, paired (Sample.crossedTokens.take 2) _
    (Sample.crossedTokens.drop 8) _ rfl Sample.nested_crossedTokens⟩

end Destinations

end TeenyBasic
