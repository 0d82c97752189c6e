import TeenyBasic.Proofs.Acceptance
import TeenyBasic.Proofs.MachineWalk

/-!
# Runs of accepted programs

A program that can be put into C can also be run.  If no label stands inside a block, its runs are
those of its tree.  Wherever labels stand, a run can fail in two ways only: a variable has no value,
or a jump led into a block and the end of that block was reached.
-/

namespace TeenyBasic

/-- A text that has a tree with its names in order is a program that shows the tree. -/
theorem Program.exists_shows {source : String} {tree : List Statement}
    (derives : SourceTree source tree) (lawful : Naming.Lawful [] (Statement.namingsOf tree))
    (declared : Naming.JumpsDeclared (Statement.namingsOf tree)) :
    ∃ program, ofSource source = .ok program ∧ program.Shows tree := by
  obtain ⟨body, last, tokenized, derived⟩ := derives
  obtain ⟨tokens, ends⟩ := Lexer.scan_of_tokens tokenized
  rw [← derived.namings_eq] at lawful
  obtain ⟨destinations, collected⟩ : ∃ destinations,
      Destinations.ofTokens (body ++ [Token.eofAt last]) = .ok destinations := by
    rw [Destinations.ofTokens, Destinations.collect_append_eof]
    exact Destinations.exists_collect lawful (by simp)
  refine ⟨⟨body, last, destinations⟩, ?_, derived, ?_, declared⟩
  · rw [ofSource, ends, tokens]
    simp only [assemble, collected]
    rfl
  · rw [Destinations.ofTokens, Destinations.collect_append_eof] at collected
    exact ⟨_, collected⟩

/-- An accepted text is a program that shows each of its trees. -/
theorem Program.exists_shows_of_accepted {precision : Int} {source code : String}
    (accepted : CProgram.ofSource precision source = .ok code) :
    ∃ program, ofSource source = .ok program ∧ (∃ tree, SourceTree source tree) ∧
      ∀ tree, SourceTree source tree → program.Shows tree := by
  obtain ⟨body, last, tree, tokenized, derived⟩ := CProgram.exists_program_of_ofSource accepted
  have derives : SourceTree source tree := ⟨body, last, tokenized, derived⟩
  obtain ⟨⟨lawful, declared⟩, -⟩ := CProgram.of_accepted accepted derives
  obtain ⟨program, loaded, -⟩ := exists_shows derives lawful declared
  refine ⟨program, loaded, ⟨tree, derives⟩, fun other otherDerives => ?_⟩
  obtain ⟨⟨lawful, declared⟩, -⟩ := CProgram.of_accepted accepted otherDerives
  obtain ⟨same, otherLoaded, shows⟩ := exists_shows otherDerives lawful declared
  rw [loaded, Except.ok.injEq] at otherLoaded
  exact otherLoaded ▸ shows

namespace Sample

/-- The jump leads past the first line of the block, so its end is met outside of it. -/
def straying : String :=
  "GOTO b\nINPUT a\nIF a<a THEN\nLABEL b\nENDIF"

def strayingTree : List Statement :=
  [.goto "b" 1, .action (.input "a"),
    .block .conditional (.compare .less (.read "a" 3) (.read "a" 3)) [.label "b" 4]]

set_option maxRecDepth 10000 in
private theorem sourceTree_straying : SourceTree straying strayingTree := by
  have tokenized : Lexer.tokens straying = .ok ([
      ⟨.keyword .gotoWord, "GOTO", 1⟩, ⟨.identifier "b", "b", 1⟩, ⟨.newline, "\n", 1⟩,
      ⟨.keyword .inputWord, "INPUT", 2⟩, ⟨.identifier "a", "a", 2⟩, ⟨.newline, "\n", 2⟩,
      ⟨.keyword Block.conditional.opener, "IF", 3⟩, ⟨.identifier "a", "a", 3⟩,
      ⟨.relation .less, "<", 3⟩, ⟨.identifier "a", "a", 3⟩,
      ⟨.keyword Block.conditional.separator, "THEN", 3⟩, ⟨.newline, "\n", 3⟩,
      ⟨.keyword .labelWord, "LABEL", 4⟩, ⟨.identifier "b", "b", 4⟩, ⟨.newline, "\n", 4⟩,
      ⟨.keyword Block.conditional.closer, "ENDIF", 5⟩, ⟨.newline, "\n", 5⟩] ++
      [Token.eofAt 6]) := by
    cbv
  exact ⟨_, _, tokenized, .statements (.line .goto .one (.line .input .one (.block
    (.first (.first (.first (.unsigned .identifier))) (.first (.first (.unsigned .identifier))))
    .one (.line .label .one .none) .one .none)))⟩

theorem declared_straying : Naming.JumpsDeclared (Statement.namingsOf strayingTree) := by
  simp [Naming.JumpsDeclared, strayingTree, Statement.namingsOf, Statement.namings,
    Action.namings, Condition.namings, Expression.namings]

end Sample

namespace Machine

variable {program : Program} {tree : List Statement} {input : List Char}

theorem ends_iff_of_shows (shows : program.Shows tree)
    (plain : Statement.nestedLabels tree = []) (fault : Option Diagnostic) (world : World) :
    (∃ budget machine, (start program input).run? budget = some ⟨machine, fault⟩ ∧
        machine.world = world) ↔
      RunsToEnd tree tree (World.start input) fault world := by
  have agrees := matches_run? shows rfl (follows_start shows input)
  rw [Walk.runsToEnd_iff plain]
  constructor
  · rintro ⟨budget, machine, ended, rfl⟩
    refine ⟨budget, ?_⟩
    have agreed := agrees budget
    rw [ended] at agreed
    generalize Walk.run? tree budget _ = result at agreed
    cases agreed with
    | some matched =>
        cases matched with
        | finished same => rw [same]; rfl
        | failed same => rw [same]; rfl
        | stray _ _ _ _ nested => simp [plain] at nested
  · rintro ⟨budget, ended⟩
    have agreed := agrees budget
    rw [ended] at agreed
    generalize found : (start program input).run? budget = stopped at agreed
    cases agreed with
    | some matched =>
        cases fault with
        | none =>
            cases matched with
            | finished same => exact ⟨budget, _, found, same⟩
        | some diagnostic =>
            cases matched with
            | failed same => exact ⟨budget, _, found, same⟩

private theorem fault_of_shows (shows : program.Shows tree) {budget : Nat} {machine : Machine}
    {fault : Option Diagnostic}
    (ended : (start program input).run? budget = some ⟨machine, fault⟩) :
    fault = none ∨ (∃ name line, fault = some (.unassignedVariable name line)) ∨
      ∃ token ∈ program.body,
        (token.kind = .keyword .endifWord ∨ token.kind = .keyword .endwhileWord) ∧
        fault = some (.invalidStatement token) ∧
        ∃ name ∈ machine.targets, name ∈ Statement.nestedLabels tree := by
  have agreed := matches_run? shows rfl (follows_start shows input) budget
  rw [ended] at agreed
  generalize found : Walk.run? tree budget _ = result at agreed
  cases agreed with
  | some matched =>
      cases matched with
      | finished same => exact .inl rfl
      | failed same =>
          obtain ⟨name, line, rfl⟩ := Walk.isUnassigned_of_run? found
          exact .inr (.inl ⟨name, line, rfl⟩)
      | @stray _ _ block token name same member closes executed nested =>
          refine .inr (.inr ⟨token, member, ?_, rfl, name, executed, nested⟩)
          cases block with
          | conditional => exact .inl closes
          | loop => exact .inr closes

/-- A run of an accepted program ends exactly if that of its tree does, and then with the same
fault, or none, and in the same world: the same variables in the same order, the same input left
and the same output.  No label may stand inside a block. -/
theorem ends_iff_runsToEnd {precision : Int} {source code : String}
    (accepted : CProgram.ofSource precision source = .ok code) :
    ∃ program, Program.ofSource source = .ok program ∧ (∃ tree, SourceTree source tree) ∧
      ∀ tree, SourceTree source tree → Statement.nestedLabels tree = [] →
        ∀ input fault world,
          (∃ budget machine, (start program input).run? budget = some ⟨machine, fault⟩ ∧
              machine.world = world) ↔
            RunsToEnd tree tree (World.start input) fault world := by
  obtain ⟨program, loaded, hasTree, shows⟩ := Program.exists_shows_of_accepted accepted
  exact ⟨program, loaded, hasTree, fun tree derives plain input fault world =>
    ends_iff_of_shows (shows tree derives) plain fault world⟩

/-- The program with a jump out of a loop is one without nested labels. -/
theorem ends_iff_runsToEnd_squaring :
    ∃ program, Program.ofSource Sample.squaring = .ok program ∧
      ∀ input fault world,
        (∃ budget machine, (start program input).run? budget = some ⟨machine, fault⟩ ∧
            machine.world = world) ↔
          RunsToEnd Sample.squaringTree Sample.squaringTree (World.start input) fault world := by
  obtain ⟨program, loaded, -, agrees⟩ := ends_iff_runsToEnd (Sample.ofSource_squaring 2)
  exact ⟨program, loaded, agrees _ Sample.sourceTree_squaring (by decide)⟩

/-- A run of an accepted program that ends has succeeded, or it has read a variable without a value,
or it has met the closing word of a block outside of every block; the last only if it executed a
jump to a label inside a block. -/
theorem fault_of_accepted {precision : Int} {source code : String}
    (accepted : CProgram.ofSource precision source = .ok code) :
    ∃ program, Program.ofSource source = .ok program ∧ (∃ tree, SourceTree source tree) ∧
      ∀ tree, SourceTree source tree → ∀ input budget machine fault,
        (start program input).run? budget = some ⟨machine, fault⟩ →
        fault = none ∨ (∃ name line, fault = some (.unassignedVariable name line)) ∨
          ∃ token ∈ program.body,
            (token.kind = .keyword .endifWord ∨ token.kind = .keyword .endwhileWord) ∧
            fault = some (.invalidStatement token) ∧
            ∃ name ∈ machine.targets, name ∈ Statement.nestedLabels tree := by
  obtain ⟨program, loaded, hasTree, shows⟩ := Program.exists_shows_of_accepted accepted
  exact ⟨program, loaded, hasTree, fun tree derives input budget machine fault ended =>
    fault_of_shows (shows tree derives) ended⟩

/-- Such a run: the label is nested, the jump is executed, and the closing word is refused. -/
theorem fault_of_accepted_straying :
    ∃ program, Program.ofSource Sample.straying = .ok program ∧
      ∃ machine, ∃ token ∈ program.body,
        (start program []).run? 3 = some ⟨machine, some (.invalidStatement token)⟩ ∧
        (token.kind = .keyword .endifWord ∨ token.kind = .keyword .endwhileWord) ∧
        ∃ name ∈ machine.targets, name ∈ Statement.nestedLabels Sample.strayingTree := by
  have derives := Sample.sourceTree_straying
  have accepted := CProgram.ofSource_eq_ok derives (by decide) Sample.declared_straying 2
  obtain ⟨program, loaded, -, faults⟩ := fault_of_accepted accepted
  obtain ⟨same, loaded', shows⟩ := Program.exists_shows derives (by decide) Sample.declared_straying
  obtain rfl : program = same := Except.ok.inj (loaded.symm.trans loaded')
  have strays : Walk.run? Sample.strayingTree 3 ⟨Sample.strayingTree, [], [], World.start []⟩ =
      some (.stray .conditional, World.start []) := rfl
  have agreed := matches_run? shows rfl (follows_start shows []) 3
  rw [strays] at agreed
  generalize ended : (start program []).run? 3 = stopped at agreed
  cases agreed with
  | some matched =>
      cases matched with
      | @stray machine =>
          obtain none | ⟨name, line, unassigned⟩ | ⟨token, member, closes, refused, jumped⟩ :=
            faults _ derives [] 3 machine _ ended
          · simp at none
          · simp [Diagnostic.invalidStatement, Diagnostic.unassignedVariable] at unassigned
          · exact ⟨program, loaded, machine, token, member, refused ▸ ended, closes, jumped⟩

end Machine

end TeenyBasic
