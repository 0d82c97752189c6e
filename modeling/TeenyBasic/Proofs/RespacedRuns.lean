import Mathlib.Data.List.Forall2
import TeenyBasic.Proofs.BlockExits
import TeenyBasic.Proofs.Respacing

/-!
# Running respaced programs

The places of tokens differ between two respaced programs, since empty lines count.  But every token
other than a line end has its `Twin` in the other program, and one only: as many such tokens remain
from there on.  The tables of jumps speak about twins (`collect_agree`), so two machines whose
cursors stand at twins stay there line by line (`sameStep_step`), and their runs show the same
(`run?_rel`).
-/

namespace TeenyBasic

/-- The number of tokens that end no line. -/
def inked (tokens : List Token) : Nat :=
  tokens.countP fun token => !token.isNewline

@[simp] theorem inked_dropWhile (tokens : List Token) :
    inked (tokens.dropWhile Token.isNewline) = inked tokens := by
  induction tokens with
  | nil => rfl
  | cons token rest induction =>
    cases ended : token.isNewline with
    | false => rw [List.dropWhile_cons_of_neg (by simp [ended])]
    | true =>
      rw [List.dropWhile_cons_of_pos ended, induction, inked, inked,
        List.countP_cons_of_neg (by simp [ended])]

theorem Respaced.inked_eq {tokens tokens' : List Token} (respaced : Respaced tokens tokens') :
    inked tokens = inked tokens' := by
  induction respaced with
  | nil => rfl
  | token same inside _ induction =>
    have inside' := same.isNewline_eq ▸ inside
    rw [inked, inked, List.countP_cons_of_pos (by simp [inside]),
      List.countP_cons_of_pos (by simp [inside'])]
    exact congrArg Nat.succ induction
  | lineEnd same ended _ induction =>
    have ended' := same.isNewline_eq ▸ ended
    rw [inked_dropWhile, inked_dropWhile] at induction
    rw [inked, inked, List.countP_cons_of_neg (by simp [ended]),
      List.countP_cons_of_neg (by simp [ended'])]
    exact induction

theorem drop_succ_of_drop {body rest : List Token} {token : Token} {place : Nat}
    (front : body.drop place = token :: rest) : body.drop (place + 1) = rest := by
  rw [← List.drop_drop, front, List.drop_succ_cons, List.drop_zero]

/-- A token that ends no line stands at the place. -/
def Inked (body : List Token) (place : Nat) : Prop :=
  ∃ token rest, body.drop place = token :: rest ∧ token.isNewline = false

theorem Inked.lt {body : List Token} {place other : Nat} (here : Inked body place)
    (behind : place < other) : inked (body.drop other) < inked (body.drop place) := by
  obtain ⟨token, rest, front, inside⟩ := here
  have further : body.drop other = rest.drop (other - place - 1) := by
    have split : other = place + 1 + (other - place - 1) := by omega
    rw [split, ← List.drop_drop, drop_succ_of_drop front]
    congr 1
    omega
  have fewer : inked (rest.drop (other - place - 1)) ≤ inked rest :=
    (List.drop_sublist _ _).countP_le
  rw [further, front]
  have counted : inked (token :: rest) = inked rest + 1 :=
    List.countP_cons_of_pos (by simp [inside])
  omega

theorem Inked.eq_of_inked_eq {body : List Token} {place other : Nat} (here : Inked body place)
    (there : Inked body other) (same : inked (body.drop place) = inked (body.drop other)) :
    place = other := by
  rcases Nat.lt_trichotomy place other with before | equal | behind
  · have fewer := here.lt before
    omega
  · exact equal
  · have fewer := there.lt behind
    omega

/-- The same token stands at the two places, and respaced tokens stand behind it. -/
structure Twin (body body' : List Token) (place place' : Nat) : Prop where
  here : Inked body place
  here' : Inked body' place'
  respaced : Respaced (body.drop place) (body'.drop place')

theorem Twin.eq_iff {body body' : List Token} {place place' other other' : Nat}
    (twin : Twin body body' place place') (twin' : Twin body body' other other') :
    place = other ↔ place' = other' := by
  have counted := twin.respaced.inked_eq
  have counted' := twin'.respaced.inked_eq
  constructor
  · rintro rfl
    exact twin.here'.eq_of_inked_eq twin'.here' (counted.symm.trans counted')
  · rintro rfl
    exact twin.here.eq_of_inked_eq twin'.here (counted.trans counted'.symm)

/-- Tables with related keys and related values are searched alike. -/
theorem find?_rel {α β γ δ : Type} [DecidableEq α] [DecidableEq β] {keys : α → β → Prop}
    {values : γ → δ → Prop} {list : List (α × γ)} {list' : List (β × δ)} {sought : α} {sought' : β}
    (entries : List.Forall₂ (fun entry entry' => keys entry.1 entry'.1 ∧ values entry.2 entry'.2)
      list list')
    (same : ∀ key key', keys key key' → (key = sought ↔ key' = sought')) :
    Option.Rel values ((list.find? (·.1 = sought)).map (·.2))
      ((list'.find? (·.1 = sought')).map (·.2)) := by
  induction entries with
  | nil => exact .none
  | @cons entry entry' rest rest' here _ induction =>
    by_cases found : entry.1 = sought
    · have found' := (same _ _ here.1).mp found
      rw [List.find?_cons_of_pos (by simp [found]), List.find?_cons_of_pos (by simp [found'])]
      exact .some here.2
    · have found' := mt (same _ _ here.1).mpr found
      rw [List.find?_cons_of_neg (by simp [found]), List.find?_cons_of_neg (by simp [found'])]
      exact induction

namespace Destinations

/-- The tables speak about twins. -/
structure Twins (body body' : List Token) (destinations destinations' : Destinations) : Prop where
  closings : List.Forall₂
    (fun pair pair' => Twin body body' pair.1 pair'.1 ∧ Twin body body' pair.2 pair'.2)
    destinations.closings destinations'.closings
  labels : List.Forall₂
    (fun entry entry' => entry.1 = entry'.1 ∧ Twin body body' entry.2 entry'.2)
    destinations.labels destinations'.labels

def SameBlock (body body' : List Token) (opened opened' : Block × Nat) : Prop :=
  opened.1 = opened'.1 ∧ Twin body body' opened.2 opened'.2

variable {body body' : List Token} {destinations destinations' : Destinations}
  {blocks blocks' : List (Block × Nat)} {place place' : Nat}

theorem Twins.closer? (twins : Twins body body' destinations destinations')
    (here : Twin body body' place place') :
    Option.Rel (Twin body body') (destinations.closer? place) (destinations'.closer? place') :=
  find?_rel twins.closings fun _ _ twin => twin.eq_iff here

theorem Twins.label? (twins : Twins body body' destinations destinations') (name : String) :
    Option.Rel (Twin body body') (destinations.label? name) (destinations'.label? name) :=
  find?_rel twins.labels fun _ _ equal => by rw [equal]

theorem Twins.close (twins : Twins body body' destinations destinations')
    (opened : List.Forall₂ (SameBlock body body') blocks blocks') (block : Block)
    (here : Twin body body' place place') :
    Twins body body' (destinations.close block place blocks).1
        (destinations'.close block place' blocks').1 ∧
      List.Forall₂ (SameBlock body body') (destinations.close block place blocks).2
        (destinations'.close block place' blocks').2 := by
  cases opened with
  | nil => exact ⟨twins, .nil⟩
  | @cons inner inner' outer outer' innermost further =>
    obtain ⟨kind, opener⟩ := inner
    obtain ⟨kind', opener'⟩ := inner'
    obtain ⟨rfl, twin⟩ := innermost
    simp only [Destinations.close]
    split
    · exact ⟨⟨List.rel_append twins.closings (.cons ⟨twin, here⟩ .nil), twins.labels⟩, further⟩
    · exact ⟨twins, .cons ⟨rfl, twin⟩ further⟩

theorem Twins.isSome_label? (twins : Twins body body' destinations destinations')
    (name : String) : (destinations.label? name).isSome = (destinations'.label? name).isSome := by
  have found := twins.label? name
  generalize destinations.label? name = entry at found ⊢
  generalize destinations'.label? name = entry' at found ⊢
  cases found <;> rfl

private theorem declare_agree (twins : Twins body body' destinations destinations')
    (here : Twin body body' place place') {tokens tokens' : List Token}
    (respaced : Respaced tokens tokens') :
    Agree (Twins body body') (destinations.declare place tokens)
      (destinations'.declare place' tokens') := by
  cases respaced with
  | nil => exact .ok twins
  | @token token token' _ _ same _ _ =>
    obtain ⟨lexeme, text, line⟩ := token
    obtain ⟨lexeme', text', line'⟩ := token'
    obtain rfl : lexeme = lexeme' := same.lexeme
    cases lexeme with
    | identifier name =>
      simp only [declare, ← twins.isSome_label? name]
      split
      · exact .error rfl
      · exact .ok ⟨twins.closings, List.rel_append twins.labels (.cons ⟨rfl, here⟩ .nil)⟩
    | _ => exact .ok twins
  | @lineEnd token token' _ _ same ended _ =>
    obtain ⟨lexeme, text, line⟩ := token
    obtain ⟨lexeme', text', line'⟩ := token'
    obtain rfl : lexeme = lexeme' := same.lexeme
    cases lexeme with
    | identifier name => cases ended
    | _ => exact .ok twins

@[simp] theorem collect_newline {token : Token} (ended : token.isNewline = true)
    (rest : List Token) :
    collect destinations blocks place (token :: rest) =
      collect destinations blocks (place + 1) rest := by
  obtain ⟨lexeme, text, line⟩ := token
  cases lexeme <;> first | rfl | cases ended

theorem collect_dropWhile (tokens : List Token) :
    collect destinations blocks place tokens =
      collect destinations blocks (place + (tokens.takeWhile Token.isNewline).length)
        (tokens.dropWhile Token.isNewline) := by
  induction tokens generalizing place with
  | nil => rfl
  | cons token rest induction =>
    cases ended : token.isNewline with
    | false =>
      rw [List.dropWhile_cons_of_neg (by simp [ended]),
        List.takeWhile_cons_of_neg (by simp [ended])]
      rfl
    | true =>
      rw [List.dropWhile_cons_of_pos ended, List.takeWhile_cons_of_pos ended, List.length_cons,
        collect_newline ended, induction]
      congr 1
      omega

/-- The tables of respaced programs speak about twins. -/
theorem collect_agree {tokens tokens' : List Token} (respaced : Respaced tokens tokens')
    (front : body.drop place = tokens) (front' : body'.drop place' = tokens')
    (twins : Twins body body' destinations destinations')
    (opened : List.Forall₂ (SameBlock body body') blocks blocks') :
    Agree (Twins body body') (collect destinations blocks place tokens)
      (collect destinations' blocks' place' tokens') := by
  induction respaced generalizing place place' destinations destinations' blocks blocks' with
  | nil => exact .ok twins
  | @token token token' rest rest' same inside further induction =>
    have here : Twin body body' place place' := by
      refine ⟨⟨token, rest, front, inside⟩, ⟨token', rest', front', same.isNewline_eq ▸ inside⟩, ?_⟩
      rw [front, front']
      exact .token same inside further
    have behind := drop_succ_of_drop front
    have behind' := drop_succ_of_drop front'
    simp only [collect, ← same.lexeme]
    split
    · exact induction behind behind' twins (.cons ⟨rfl, here⟩ opened)
    · exact induction behind behind' twins (.cons ⟨rfl, here⟩ opened)
    · have closed := twins.close opened .conditional here
      exact induction behind behind' closed.1 closed.2
    · have closed := twins.close opened .loop here
      exact induction behind behind' closed.1 closed.2
    · rcases (declare_agree twins here further).cases with
        ⟨diagnostic, diagnostic', refused, refused', fault⟩ | ⟨_, _, noted, noted', twins⟩
      · simp only [refused, refused']
        exact .error fault
      · simp only [noted, noted']
        exact induction behind behind' twins opened
    · exact induction behind behind' twins opened
  | @lineEnd token token' rest rest' same ended _ induction =>
    have behind {body tokens : List Token} {token : Token} {place : Nat}
        (front : body.drop place = token :: tokens) :
        body.drop (place + 1 + (tokens.takeWhile Token.isNewline).length) =
          tokens.dropWhile Token.isNewline := by
      rw [← List.drop_drop, drop_succ_of_drop front]
      calc
        tokens.drop (tokens.takeWhile Token.isNewline).length =
            (tokens.takeWhile Token.isNewline ++ tokens.dropWhile Token.isNewline).drop
              (tokens.takeWhile Token.isNewline).length := by
          rw [List.takeWhile_append_dropWhile]
        _ = tokens.dropWhile Token.isNewline := List.drop_left
    rw [collect_newline ended, collect_newline (same.isNewline_eq ▸ ended),
      collect_dropWhile, collect_dropWhile rest']
    exact induction (behind front) (behind front') twins opened

end Destinations

/-- The tokens of the programs are respaced, and their tables speak about twins. -/
structure Program.Twins (program program' : Program) : Prop where
  respaced : Respaced program.body program'.body
  destinations : Destinations.Twins program.body program'.body program.destinations
    program'.destinations
  lastPlace : program.destinations.lastPlace = program.body.length
  lastPlace' : program'.destinations.lastPlace = program'.body.length

theorem Program.assemble_agree {body body' : List Token} (respaced : Respaced body body')
    (line line' : Int) :
    Agree Program.Twins (assemble body (Token.eofAt line))
      (assemble body' (Token.eofAt line')) := by
  have table (body : List Token) (line : Int) :
      Destinations.ofTokens (body ++ [Token.eofAt line]) =
        Destinations.collect ⟨[], [], body.length⟩ [] 0 body := by
    rw [Destinations.ofTokens, Destinations.collect_append_eof]
    simp
  have empty : Destinations.Twins body body' ⟨[], [], body.length⟩ ⟨[], [], body'.length⟩ :=
    ⟨.nil, .nil⟩
  rcases (Destinations.collect_agree respaced List.drop_zero List.drop_zero empty .nil).cases with
    ⟨diagnostic, diagnostic', refused, refused', fault⟩ |
    ⟨destinations, destinations', made, made', twins⟩
  · simp only [assemble, table, refused, refused']
    exact .error fault
  · simp only [assemble, table, made, made']
    refine .ok ⟨respaced, twins, ?_, ?_⟩
    · exact (Destinations.closings_collect made).2
    · exact (Destinations.closings_collect made').2

namespace Machine

/-- The machines run respaced programs, and everything but line ends stands at twins. -/
structure Twins (machine machine' : Machine) : Prop where
  program : machine.program.Twins machine'.program
  rest : Respaced machine.rest machine'.rest
  blocks : List.Forall₂ (Destinations.SameBlock machine.program.body machine'.program.body)
    machine.blocks machine'.blocks
  world : machine.world = machine'.world

/-- The steps lead to twins, or both end the run in the same world and for the same reason. -/
inductive SameStep : Step → Step → Prop
  | next {machine machine'} : Twins machine machine' → SameStep (.next machine) (.next machine')
  | halt {machine machine'} :
      machine.world = machine'.world → SameStep (.halt machine) (.halt machine')
  | fault {machine machine' diagnostic diagnostic'} :
      machine.world = machine'.world →
      diagnostic.fault = diagnostic'.fault →
      SameStep (.fault machine diagnostic) (.fault machine' diagnostic')

variable {machine machine' : Machine} {tokens tokens' : List Token}

theorem Twins.meaning_eq (twins : Twins machine machine') : machine.meaning = machine'.meaning := by
  have symbols : machine.symbols = machine'.symbols := congrArg World.symbols twins.world
  rw [meaning, meaning, symbols]

/-- What happens to both worlds keeps the machines twins. -/
theorem Twins.change (twins : Twins machine machine') (change : World → World) :
    Twins (machine.withWorld (change machine.world))
      (machine'.withWorld (change machine'.world)) :=
  ⟨twins.program, twins.rest, twins.blocks, congrArg change twins.world⟩

theorem Twins.print (twins : Twins machine machine') (text : String) :
    Twins (machine.print text) (machine'.print text) :=
  twins.change fun world => world.print text

theorem Twins.declare (twins : Twins machine machine') (name : String) :
    Twins { machine with symbols := machine.symbols.declare name }
      { machine' with symbols := machine'.symbols.declare name } :=
  twins.change fun world => { world with symbols := world.symbols.declare name }

theorem Twins.assign (twins : Twins machine machine') (name : String) (value : Float) :
    Twins (machine.assign name value) (machine'.assign name value) :=
  twins.change fun world => { world with symbols := world.symbols.set name value }

theorem Twins.inputTo (twins : Twins machine machine') (name : String) :
    Twins (machine.inputTo name) (machine'.inputTo name) :=
  twins.change fun world =>
    { world with
      symbols := world.symbols.set name (Number.entered (Text.firstLine world.input))
      input := Text.afterFirstLine world.input }

theorem Twins.noteTarget (twins : Twins machine machine') (name : String) :
    Twins (machine.noteTarget name) (machine'.noteTarget name) := by
  unfold Machine.noteTarget
  split <;> split <;> exact ⟨twins.program, twins.rest, twins.blocks, twins.world⟩

theorem sameStep_finishLine (twins : Twins machine machine') (respaced : Respaced tokens tokens') :
    SameStep (machine.finishLine tokens) (machine'.finishLine tokens') := by
  rcases (Ending.expectLineEnd_agree machine.program.lastLine machine'.program.lastLine
      respaced).cases with
    ⟨diagnostic, diagnostic', refused, refused', fault⟩ | ⟨rest, rest', taken, taken', behind⟩
  · simp only [finishLine, Program.ending, refused, refused']
    exact .fault twins.world fault
  · simp only [finishLine, Program.ending, taken, taken']
    exact .next ⟨twins.program, behind, twins.blocks, twins.world⟩

private theorem sameStep_printLine (twins : Twins machine machine')
    (respaced : Respaced tokens tokens') :
    SameStep (machine.printLine tokens) (machine'.printLine tokens') := by
  rcases respaced.string_cases with
    ⟨content, _, _, _, _, _, _, rfl, rfl, rest⟩ | ⟨noString, noString'⟩
  · exact sameStep_finishLine (twins.print content) rest
  · rw [printLine.eq_2 _ _ noString, printLine.eq_2 _ _ noString', ← twins.meaning_eq]
    rcases (Formula.expression_agree machine.program.lastLine machine'.program.lastLine
        machine.meaning respaced).cases with
      ⟨diagnostic, diagnostic', refused, refused', fault⟩ |
      ⟨⟨formula, rest⟩, ⟨_, rest'⟩, read, read', rfl, behind⟩
    · simp only [Program.ending, refused, refused']
      exact .fault twins.world fault
    · simp only [Program.ending, read, read']
      exact sameStep_finishLine (twins.print _) behind

private theorem header_agree (twins : Twins machine machine') (block : Block)
    (respaced : Respaced tokens tokens') :
    Agree (Behind Eq) (machine.header block tokens) (machine'.header block tokens') := by
  simp only [header, Program.ending, ← twins.meaning_eq]
  rcases (Formula.condition_agree machine.program.lastLine machine'.program.lastLine
      machine.meaning respaced).cases with
    ⟨diagnostic, diagnostic', refused, refused', fault⟩ |
    ⟨⟨condition, rest⟩, ⟨_, rest'⟩, read, read', rfl, behind⟩
  · simp only [refused, refused']
    exact .error fault
  · simp only [read, read']
    rcases (Ending.expect_agree machine.program.lastLine machine'.program.lastLine
        (.keyword block.separator) behind).cases with
      ⟨diagnostic, diagnostic', refused, refused', fault⟩ | ⟨rest, rest', taken, taken', behind, -⟩
    · simp only [refused, refused']
      exact .error fault
    · simp only [taken, taken']
      rcases (Ending.expectLineEnd_agree machine.program.lastLine machine'.program.lastLine
          (behind (by simp))).cases with
        ⟨diagnostic, diagnostic', refused, refused', fault⟩ | ⟨rest, rest', ended, ended', behind⟩
      · simp only [refused, refused']
        exact .error fault
      · simp only [ended, ended']
        exact .ok ⟨rfl, behind⟩

/-- The blocks opened at twins end at twins, or both with their programs. -/
theorem Twins.respaced_closing (twins : Twins machine machine')
    (here : Twin machine.program.body machine'.program.body machine.place machine'.place) :
    Respaced
      (machine.program.tokensFrom
        (machine.program.destinations.closingFrom machine.place).toNat)
      (machine'.program.tokensFrom
        (machine'.program.destinations.closingFrom machine'.place).toNat) := by
  have found := twins.program.destinations.closer? here
  have lastPlace := twins.program.lastPlace
  have lastPlace' := twins.program.lastPlace'
  simp only [Destinations.closingFrom]
  generalize machine.program.destinations.closer? machine.place = closing at found ⊢
  generalize machine'.program.destinations.closer? machine'.place = closing' at found ⊢
  cases found with
  | none =>
    simpa [lastPlace, lastPlace', Program.tokensFrom] using Respaced.nil
  | some twin => exact twin.respaced

private theorem sameStep_skipBlock (twins : Twins machine machine') (block : Block)
    (here : Twin machine.program.body machine'.program.body machine.place machine'.place) :
    SameStep (machine.skipBlock block) (machine'.skipBlock block) := by
  rcases (Ending.expect_agree machine.program.lastLine machine'.program.lastLine
      (.keyword block.closer) (twins.respaced_closing here)).cases with
    ⟨diagnostic, diagnostic', refused, refused', fault⟩ | ⟨rest, rest', taken, taken', behind, -⟩
  · simp only [skipBlock, Program.ending, refused, refused']
    exact .fault twins.world fault
  · simp only [skipBlock, Program.ending, taken, taken']
    exact sameStep_finishLine twins (behind (by simp))

theorem sameStep_openLine (twins : Twins machine machine') (block : Block)
    (here : Twin machine.program.body machine'.program.body machine.place machine'.place)
    (respaced : Respaced tokens tokens') :
    SameStep (machine.openLine block tokens) (machine'.openLine block tokens') := by
  rcases (header_agree twins block respaced).cases with
    ⟨diagnostic, diagnostic', refused, refused', fault⟩ |
    ⟨⟨condition, rest⟩, ⟨_, rest'⟩, read, read', rfl, behind⟩
  · simp only [openLine, refused, refused']
    exact .fault twins.world fault
  · simp only [openLine, read, read']
    split
    · exact .next ⟨twins.program, behind, .cons ⟨rfl, here⟩ twins.blocks, twins.world⟩
    · exact sameStep_skipBlock twins block here

private theorem sameStep_labelLine (twins : Twins machine machine')
    (respaced : Respaced tokens tokens') :
    SameStep (machine.labelLine tokens) (machine'.labelLine tokens') := by
  rcases (Ending.expectName_agree machine.program.lastLine machine'.program.lastLine
      respaced).cases with
    ⟨diagnostic, diagnostic', refused, refused', fault⟩ |
    ⟨⟨name, line, rest⟩, ⟨_, line', rest'⟩, taken, taken', rfl, behind⟩
  · simp only [labelLine, Program.ending, refused, refused']
    exact .fault twins.world fault
  · simp only [labelLine, Program.ending, taken, taken']
    exact sameStep_finishLine twins behind

private theorem sameStep_gotoLine (twins : Twins machine machine')
    (respaced : Respaced tokens tokens') :
    SameStep (machine.gotoLine tokens) (machine'.gotoLine tokens') := by
  rcases (Ending.expectName_agree machine.program.lastLine machine'.program.lastLine
      respaced).cases with
    ⟨diagnostic, diagnostic', refused, refused', fault⟩ |
    ⟨⟨name, line, rest⟩, ⟨_, line', rest'⟩, taken, taken', rfl, behind⟩
  · simp only [gotoLine, Program.ending, refused, refused']
    exact .fault twins.world fault
  · simp only [gotoLine, Program.ending, taken, taken']
    rcases (Ending.expect_agree machine.program.lastLine machine'.program.lastLine .newline
        behind).cases with
      ⟨diagnostic, diagnostic', refused, refused', fault⟩ | ⟨_, _, ended, ended', -⟩
    · simp only [refused, refused']
      exact .fault twins.world fault
    · simp only [ended, ended']
      have noted := twins.noteTarget name
      have found := noted.program.destinations.label? name
      generalize (machine.noteTarget name).program.destinations.label? name = target at found ⊢
      generalize (machine'.noteTarget name).program.destinations.label? name = target' at found ⊢
      cases found with
      | none => exact .fault noted.world rfl
      | some twin => exact .next ⟨noted.program, twin.respaced, .nil, noted.world⟩

private theorem sameStep_letLine (twins : Twins machine machine')
    (respaced : Respaced tokens tokens') :
    SameStep (machine.letLine tokens) (machine'.letLine tokens') := by
  rcases (Ending.expectName_agree machine.program.lastLine machine'.program.lastLine
      respaced).cases with
    ⟨diagnostic, diagnostic', refused, refused', fault⟩ |
    ⟨⟨name, line, rest⟩, ⟨_, line', rest'⟩, taken, taken', rfl, behind⟩
  · simp only [letLine, Program.ending, refused, refused']
    exact .fault twins.world fault
  · have declared := twins.declare name
    simp only [letLine, Program.ending, taken, taken', ← declared.meaning_eq]
    rcases (Ending.expect_agree machine.program.lastLine machine'.program.lastLine .assign
        behind).cases with
      ⟨diagnostic, diagnostic', refused, refused', fault⟩ | ⟨rest, rest', taken, taken', behind, -⟩
    · simp only [refused, refused']
      exact .fault declared.world fault
    · simp only [taken, taken']
      rcases (Formula.expression_agree machine.program.lastLine machine'.program.lastLine
          (meaning { machine with symbols := machine.symbols.declare name })
          (behind (by simp))).cases with
        ⟨diagnostic, diagnostic', refused, refused', fault⟩ |
        ⟨⟨formula, rest⟩, ⟨_, rest'⟩, read, read', rfl, behind⟩
      · simp only [refused, refused']
        exact .fault declared.world fault
      · simp only [read, read']
        exact sameStep_finishLine (declared.assign name _) behind

private theorem sameStep_inputLine (twins : Twins machine machine')
    (respaced : Respaced tokens tokens') :
    SameStep (machine.inputLine tokens) (machine'.inputLine tokens') := by
  rcases (Ending.expectName_agree machine.program.lastLine machine'.program.lastLine
      respaced).cases with
    ⟨diagnostic, diagnostic', refused, refused', fault⟩ |
    ⟨⟨name, line, rest⟩, ⟨_, line', rest'⟩, taken, taken', rfl, behind⟩
  · simp only [inputLine, Program.ending, refused, refused']
    exact .fault twins.world fault
  · simp only [inputLine, Program.ending, taken, taken']
    exact sameStep_finishLine (twins.inputTo name) behind

private theorem sameStep_line {token token' : Token} (twins : Twins machine machine')
    (same : token.Same token')
    (here : Twin machine.program.body machine'.program.body machine.place machine'.place)
    (respaced : Respaced tokens tokens') :
    SameStep (machine.line token tokens) (machine'.line token' tokens') := by
  simp only [line, ← same.lexeme]
  split
  · exact sameStep_printLine twins respaced
  · exact sameStep_openLine twins .conditional here respaced
  · exact sameStep_openLine twins .loop here respaced
  · exact sameStep_labelLine twins respaced
  · exact sameStep_gotoLine twins respaced
  · exact sameStep_letLine twins respaced
  · exact sameStep_inputLine twins respaced
  · exact .fault twins.world same.invalidStatement

private theorem sameStep_closeLine (twins : Twins machine machine') (block : Block)
    {opener opener' : Nat} {outer outer' : List (Block × Nat)}
    (opened : Twin machine.program.body machine'.program.body opener opener')
    (further : List.Forall₂
      (Destinations.SameBlock machine.program.body machine'.program.body) outer outer')
    (respaced : Respaced tokens tokens') :
    SameStep (machine.closeLine block opener outer tokens)
      (machine'.closeLine block opener' outer' tokens') := by
  cases block with
  | loop => exact .next ⟨twins.program, opened.respaced, further, twins.world⟩
  | conditional =>
    have left : Twins { machine with blocks := outer } { machine' with blocks := outer' } :=
      ⟨twins.program, twins.rest, further, twins.world⟩
    exact sameStep_finishLine left respaced

theorem line_newline {token : Token} (ended : token.isNewline = true) (rest : List Token) :
    machine.line token rest = .fault machine (.invalidStatement token) := by
  obtain ⟨lexeme, text, line⟩ := token
  cases lexeme <;> first | rfl | cases ended

private theorem twin_place {token token' : Token} {rest rest' : List Token}
    (suffix : machine.rest <:+ machine.program.body)
    (suffix' : machine'.rest <:+ machine'.program.body)
    (front : machine.rest = token :: rest) (front' : machine'.rest = token' :: rest')
    (same : token.Same token') (inside : token.isNewline = false)
    (further : Respaced rest rest') :
    Twin machine.program.body machine'.program.body machine.place machine'.place := by
  have here := (tokensFrom_place suffix).trans front
  have here' := (tokensFrom_place suffix').trans front'
  refine ⟨⟨token, rest, here, inside⟩, ⟨token', rest', here', same.isNewline_eq ▸ inside⟩, ?_⟩
  rw [← Program.tokensFrom, ← Program.tokensFrom, here, here']
  exact .token same inside further

/-- Twins whose cursors stand in their programs make the same step. -/
theorem sameStep_step (twins : Twins machine machine')
    (suffix : machine.rest <:+ machine.program.body)
    (suffix' : machine'.rest <:+ machine'.program.body) :
    SameStep machine.step machine'.step := by
  have respaced := twins.rest
  have opened := twins.blocks
  unfold step
  generalize front : machine.rest = rest at respaced
  generalize front' : machine'.rest = rest' at respaced
  cases respaced with
  | nil =>
    generalize machine.blocks = blocks at opened ⊢
    generalize machine'.blocks = blocks' at opened ⊢
    cases opened with
    | nil => exact .halt twins.world
    | cons _ _ =>
      exact .fault twins.world (Token.same_eofAt machine.program.lastLine _).invalidStatement
  | @token token token' rest rest' same inside further =>
    have line := sameStep_line twins same
      (twin_place suffix suffix' front front' same inside further) further
    generalize machine.blocks = blocks at opened ⊢
    generalize machine'.blocks = blocks' at opened ⊢
    cases opened with
    | nil =>
      simp only [← same.kind_eq]
      split
      · exact .halt twins.world
      · exact line
    | @cons innermost innermost' outer outer' here around =>
      obtain ⟨block, opener⟩ := innermost
      obtain ⟨block', opener'⟩ := innermost'
      obtain ⟨rfl, twin⟩ := here
      simp only [← same.kind_eq]
      split
      · exact sameStep_closeLine twins block twin around further
      · exact line
  | @lineEnd token token' rest rest' same ended _ =>
    -- a line end at the cursor is no statement, whatever is open
    have newline : token.kind = .newline := of_decide_eq_true ended
    have line : SameStep (machine.line token rest) (machine'.line token' rest') := by
      rw [line_newline ended, line_newline (same.isNewline_eq ▸ ended)]
      exact .fault twins.world same.invalidStatement
    generalize machine.blocks = blocks at opened ⊢
    generalize machine'.blocks = blocks' at opened ⊢
    cases opened with
    | nil => simpa [← same.kind_eq, newline] using line
    | cons _ _ => simpa [← same.kind_eq, newline] using line

theorem suffix_of_plain {next : Machine} (suffix : tokens <:+ machine.program.body)
    (plain : Plain machine tokens next) :
    next.program = machine.program ∧ next.rest <:+ machine.program.body :=
  ⟨plain.program, plain.quiet.suffix.trans suffix⟩

theorem suffix_of_line {next : Machine} {token : Token}
    (suffix : token :: tokens <:+ machine.program.body)
    (taken : machine.line token tokens = .next next) :
    next.program = machine.program ∧ next.rest <:+ machine.program.body := by
  rcases line_cases taken with plain | jumps | ⟨block, -, enters | skips⟩
  · exact suffix_of_plain suffix plain
  · obtain ⟨place, rest⟩ := jumps.rest
    rw [rest]
    exact ⟨jumps.program, List.drop_suffix place _⟩
  · have behind := enters.quiet.suffix.trans (List.suffix_cons token tokens)
    exact ⟨enters.program, behind.trans suffix⟩
  · obtain ⟨closer, last, found, -, plain⟩ := skips
    refine suffix_of_plain ?_ plain
    have behind : last <:+ closer :: last := List.suffix_cons closer last
    rw [← found] at behind
    exact behind.trans (List.drop_suffix _ _)

/-- The cursor of a machine stays in its program. -/
theorem suffix_of_step {next : Machine} (suffix : machine.rest <:+ machine.program.body)
    (taken : machine.step = .next next) :
    next.program = machine.program ∧ next.rest <:+ machine.program.body := by
  unfold step at taken
  split at taken
  · cases taken
  · cases taken
  · next token rest front _ =>
    rw [front] at suffix
    split at taken
    · cases taken
    · exact suffix_of_line suffix taken
  · next token rest block opener outer front _ =>
    rw [front] at suffix
    split at taken
    · cases block with
      | loop =>
        cases taken
        exact ⟨rfl, List.drop_suffix opener _⟩
      | conditional =>
        obtain ⟨quiet, program, -⟩ := plain_of_finishLine taken
        have behind := quiet.suffix.trans (List.suffix_cons token rest)
        exact ⟨program, behind.trans suffix⟩
    · exact suffix_of_line suffix taken

/-- The runs ended in the same world and for the same reason. -/
def SameEnd (stopped stopped' : Stopped) : Prop :=
  stopped.machine.world = stopped'.machine.world ∧
    stopped.fault.map Diagnostic.fault = stopped'.fault.map Diagnostic.fault

/-- Twins run alike, line by line. -/
theorem run?_rel (twins : Twins machine machine') (suffix : machine.rest <:+ machine.program.body)
    (suffix' : machine'.rest <:+ machine'.program.body) (budget : Nat) :
    Option.Rel SameEnd (machine.run? budget) (machine'.run? budget) := by
  induction budget generalizing machine machine' with
  | zero => exact .none
  | succ budget induction =>
    have step := sameStep_step twins suffix suffix'
    rw [run?, run?]
    generalize taken : machine.step = result at step ⊢
    generalize taken' : machine'.step = result' at step ⊢
    cases step with
    | next twins =>
      obtain ⟨program, inside⟩ := suffix_of_step suffix taken
      obtain ⟨program', inside'⟩ := suffix_of_step suffix' taken'
      rw [← program] at inside
      rw [← program'] at inside'
      exact induction twins inside inside'
    | halt world => exact .some ⟨world, rfl⟩
    | fault world fault => exact .some ⟨world, congrArg some fault⟩

/-- Respaced programs run alike on the same input. -/
theorem run?_start_rel {program program' : Program} (twins : program.Twins program')
    (input : List Char) (budget : Nat) :
    Option.Rel SameEnd ((start program input).run? budget)
      ((start program' input).run? budget) := by
  have started : Twins (start program input) (start program' input) :=
    ⟨twins, twins.respaced.dropWhile, .nil, rfl⟩
  refine run?_rel started ?_ ?_ budget
  · exact List.dropWhile_suffix _
  · exact List.dropWhile_suffix _

end Machine

end TeenyBasic
