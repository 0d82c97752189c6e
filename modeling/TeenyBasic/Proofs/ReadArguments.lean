import TeenyBasic.CommandLine.Request

/-!
# Reading arguments

A command that is asked for in plain words is the request that is read.  In the later edition of the
rules every flag that has a value has a text (`named_of_ofArguments`); in the earlier one the mark
`--` can be attached to a flag and leaves nothing.
-/

namespace TeenyBasic

namespace CommandLine

private theorem Level.roleOf_word (level : Level) {word : String}
    (plain : word.toList.head? ≠ some '-') :
    level.roleOf word = .ok .word := by
  unfold roleOf
  split
  · rfl
  · rfl
  · next first behind _ spelled =>
    have other : first ≠ '-' := by
      rintro rfl
      simp [spelled] at plain
    rw [if_pos other]

theorem Level.sort_words (level : Level) {words : List String}
    (plain : ∀ word ∈ words, word.toList.head? ≠ some '-') :
    level.sort words = .ok (words.map fun word => ⟨word, .word⟩) := by
  induction words with
  | nil => rfl
  | cons word words induction =>
    have noMark : word ≠ separatorText := by
      rintro rfl
      exact plain separatorText List.mem_cons_self rfl
    rw [sort, if_neg noMark, level.roleOf_word (plain word List.mem_cons_self),
      induction fun word member => plain word (List.mem_cons_of_mem _ member)]
    rfl

/-- A command is asked for by its name and that of a file, unless the latter begins like a flag. -/
@[simp] theorem ofArguments_words (edition : Edition) (command : Command) {source : String}
    (plain : source.toList.head? ≠ some '-') :
    Request.ofArguments edition [command.name, source] =
      .ok (command.request source .empty) := by
  have words : ∀ word ∈ [command.name, source], word.toList.head? ≠ some '-' := by
    intro word member
    rcases List.mem_cons.mp member with rfl | last
    · cases command <;> decide
    · rwa [List.mem_singleton.mp last]
  have found : Command.ofName? command.name = some command := by
    cases command <;> decide
  have read : command.read edition [] [source] = .ok (command.request source .empty) := by
    rw [Command.read, Level.sort_words _ fun word member => words word (.tail _ member)]
    cases command <;> simp [Level.gather, Gathered.empty, Command.request]
  rw [Request.ofArguments, Level.sort_words _ words]
  simp only [List.map_cons, List.map_nil, readArguments, readCommand, found, read]

/-- Every flag that was read with a value has a text. -/
def Gathered.Named (gathered : Gathered) : Prop :=
  gathered.output ≠ some .nothing ∧ gathered.config ≠ some .nothing

/-- Every flag of a request that has a value has a text. -/
def Request.Named : Request → Prop
  | help _ => True
  | compile _ output config => output ≠ some .nothing ∧ config ≠ some .nothing
  | run _ => True

variable {level : Level} {gathered after : Gathered} {request : Request}

theorem Gathered.Named.setFlag (named : gathered.Named) (flag : Flag) (value : String) :
    (gathered.setFlag .later flag value).Named := by
  cases flag with
  | help => exact named
  | output => exact ⟨by simp [Gathered.setFlag], named.2⟩
  | config => exact ⟨named.1, by simp [Gathered.setFlag]⟩

theorem Gathered.Named.readFlags {use : FlagUse} {rest : List Argument} {used : Nat}
    (named : gathered.Named)
    (read : level.readFlags .later use rest gathered = .ok (after, used)) : after.Named := by
  unfold Level.readFlags at read
  split at read
  · cases read
  · split at read
    · split at read
      · split at read
        · cases read
        · obtain ⟨rfl, -⟩ := Prod.mk.inj (Except.ok.inj read)
          exact named.setFlag _ _
      · split at read
        · cases read
        · obtain ⟨rfl, -⟩ := Prod.mk.inj (Except.ok.inj read)
          exact named.setFlag _ _
      · cases read
    · cases read

theorem Gathered.Named.gather {arguments : List Argument} (named : gathered.Named)
    (read : level.gather .later gathered arguments = .ok after) : after.Named := by
  fun_induction Level.gather .later level gathered arguments with
  | case1 gathered =>
    obtain rfl := Except.ok.inj read
    exact named
  | case2 gathered text fresh taken _ rest induction => exact induction named read
  | case3 gathered text rest fresh taken _ induction => exact induction named read
  | case4 gathered text rest _ induction => exact induction named read
  | case5 gathered text rest _ induction => exact induction named read
  | case6 gathered text rest _ induction => exact induction named read
  | case7 gathered text rest induction => exact induction named read
  | case8 gathered text use rest interruption _ => cases read
  | case9 gathered text use rest next used flags induction =>
    exact induction (named.readFlags flags) read

private theorem named_of_read {command : Command} {leftOver arguments : List String}
    (read : command.read .later leftOver arguments = .ok request) : request.Named := by
  unfold Command.read at read
  dsimp only at read
  split at read
  · cases read
  · split at read
    · cases read
      trivial
    · cases read
    · next gathered gather =>
      have named : gathered.Named := by
        apply Gathered.Named.gather _ gather
        constructor <;> simp [Gathered.empty]
      split at read
      · cases read
      · obtain rfl := Except.ok.inj read
        cases command with
        | compile => exact named
        | run => trivial
      · cases read

theorem named_of_readCommand {leftOver : List String} {word : String} {rest : List Argument}
    (read : readCommand .later leftOver word rest = .ok request) : request.Named := by
  unfold readCommand at read
  split at read
  · cases read
  · exact named_of_read read

private theorem named_of_readArguments {leftOver : List String} {arguments : List Argument}
    (read : readArguments .later leftOver arguments = .ok request) : request.Named := by
  fun_induction readArguments .later leftOver arguments with
  | case1 =>
    cases read
    trivial
  | case2 => cases read
  | case3 => exact named_of_readCommand read
  | case4 leftOver text rest _ induction => exact induction read
  | case5 => exact named_of_readCommand read
  | case6 leftOver text rest induction => exact induction read
  | case7 => cases read
  | case8 =>
    cases read
    trivial

/-- In the later edition a request has a text for every flag with a value. -/
theorem named_of_ofArguments {arguments : List String}
    (read : Request.ofArguments .later arguments = .ok request) : request.Named := by
  unfold Request.ofArguments at read
  split at read
  · cases read
  · exact named_of_readArguments read

end CommandLine

end TeenyBasic
