import TeenyBasic.Proofs.ReportedFailures
import TeenyBasic.Proofs.StraightPrograms

/-!
# Running a file

Running a file reads the file and the console and nothing else.  So the files of the tree stay as
they are, and two trees in which the path leads to the same bytes cannot be told apart by a run,
whatever settings lie about in them (`displays_run_congr`).
-/

namespace TeenyBasic

/-- Running a text as a program on an input prints a text and ends, by a fault or without one. -/
inductive Evaluates (text : String) (input : List Char) : String → Option Diagnostic → Prop
  | refused {diagnostic : Diagnostic} (faulty : Program.ofSource text = .error diagnostic) :
      Evaluates text input "" (some diagnostic)
  | ran {program : Program} {budget : Nat} {stopped : Machine.Stopped}
      (correct : Program.ofSource text = .ok program)
      (ended : (Machine.start program input).run? budget = some stopped) :
      Evaluates text input stopped.machine.output stopped.fault

theorem Evaluates.unique {text printed printed' : String} {input : List Char}
    {fault fault' : Option Diagnostic} (first : Evaluates text input printed fault)
    (second : Evaluates text input printed' fault') : printed = printed' ∧ fault = fault' := by
  cases first with
  | refused faulty =>
    cases second with
    | refused faulty' =>
      cases faulty.symm.trans faulty'
      exact ⟨rfl, rfl⟩
    | ran correct' => cases faulty.symm.trans correct'
  | ran correct ended =>
    cases second with
    | refused faulty' => cases correct.symm.trans faulty'
    | ran correct' ended' =>
      cases correct.symm.trans correct'
      cases Machine.run?_unique ended ended'
      exact ⟨rfl, rfl⟩

private theorem Program.ofSource_of_tokens {source : String} {body : List Token} {last : Int}
    {destinations : Destinations}
    (tokenized : Lexer.tokens source = .ok (body ++ [Token.eofAt last]))
    (table : Destinations.ofTokens (body ++ [Token.eofAt last]) = .ok destinations) :
    ofSource source = .ok ⟨body, last, destinations⟩ := by
  obtain ⟨scanned, ends⟩ := Lexer.scan_of_tokens tokenized
  rw [ofSource, ends, scanned]
  simp only [assemble, table]
  rfl

namespace CommandLine

open Files

/-- What is seen of a command that has ended. -/
structure Display where
  conclusion : Conclusion
  output : String
  errors : String

/-- Work at a desk ends, within some budget, with a display, and leaves a tree of files behind. -/
def Displays (work : AtDesk Conclusion) (files : FileTree) (typed : String) (display : Display)
    (left : FileTree) : Prop :=
  ∃ budget after, work (Desk.start budget files typed) = some (display.conclusion, after) ∧
    after.output = display.output ∧ after.errors = display.errors ∧ after.files = left

/-- How a run of a file shows what became of its text. -/
def Display.ofRun (source printed : String) : Option Diagnostic → Display
  | none => ⟨.exit 0, "Teeny Tiny Interpreter\n" ++ printed ++ "Parsing completed.\n", ""⟩
  | some diagnostic =>
      ⟨.exit 1, "Teeny Tiny Interpreter\n" ++ printed,
        "Error: " ++ (source ++ ": " ++ diagnostic.message) ++ "\n"⟩

variable {arguments : List String} {source text : String} {files other left : FileTree}
  {typed : String} {display : Display}

/-- The text of a file depends on nothing but the bytes that the path leads to. -/
theorem exists_sourceText {path : Path} (same : other.readBytes path = files.readBytes path) :
    ∃ result, (Compilation.sourceText path : OnTree _) files = (result, files) ∧
      (Compilation.sourceText path : OnTree _) other = (result, other) := by
  obtain ⟨taken, read, read'⟩ : ∃ taken, (Compilation.readText path : OnTree _) files =
      (taken, files) ∧ (Compilation.readText path : OnTree _) other = (taken, other) := by
    refine ⟨_, Compilation.readText_apply path files, ?_⟩
    rw [Compilation.readText_apply, same]
  rw [Compilation.sourceText, OnTree.bind_apply, OnTree.bind_apply, read, read']
  rcases taken with ((_ | ⟨refusal, place⟩) | fault) | text
  · exact ⟨_, rfl, rfl⟩
  · cases refusal <;> exact ⟨_, rfl, rfl⟩
  · exact ⟨_, rfl, rfl⟩
  · exact ⟨_, rfl, rfl⟩

/-- The desk once the banner of a run is printed. -/
def Desk.opened (desk : Desk) : Desk :=
  { desk with output := desk.output ++ ("Teeny Tiny Interpreter" ++ "\n") }

def proceed (source : String) : Except Compilation.Stop String → AtDesk Conclusion
  | .error stop => giveUp (.ofCompilation stop)
  | .ok text => runText source text

theorem run_apply {result : Except Compilation.Stop String} {desk : Desk}
    (taken : (Compilation.sourceText (Path.ofText source) : OnTree _) desk.files =
      (result, desk.files)) :
    (run source : AtDesk _) desk = proceed source result desk.opened := by
  rw [run, sourceText_eq_onFiles, printLine_bind_apply, onFiles_bind_apply]
  dsimp only
  rw [taken]
  cases result <;> rfl

/-- The last words of a run that ends. -/
def closing (source : String) (desk : Desk) : Option Diagnostic → Conclusion × Desk
  | none => (.exit 0, { desk with output := desk.output ++ ("Parsing completed." ++ "\n") })
  | some diagnostic =>
      (.exit 1, { desk with
        errors := desk.errors ++ ("Error: " ++ (source ++ ": " ++ diagnostic.message) ++ "\n") })

theorem runText_of_refused {diagnostic : Diagnostic}
    (faulty : Program.ofSource text = .error diagnostic) (desk : Desk) :
    (runText source text : AtDesk _) desk = some (closing source desk (some diagnostic)) := by
  rw [runText, faulty]
  rfl

theorem runText_of_correct {program : Program} (correct : Program.ofSource text = .ok program)
    (desk : Desk) :
    (runText source text : AtDesk _) desk =
      ((Machine.start program desk.input).run? desk.budget).map fun stopped =>
        closing source
          { desk with
            input := stopped.machine.input
            output := desk.output ++ stopped.machine.output }
          stopped.fault := by
  rw [runText, correct]
  dsimp only
  rw [execute_bind_apply]
  cases (Machine.start program desk.input).run? desk.budget with
  | none => rfl
  | some stopped =>
    obtain ⟨last, fault⟩ := stopped
    cases fault <;> rfl

/-- Nothing that a run does with its text depends on the files or changes them. -/
theorem proceed_files (result : Except Compilation.Stop String) (desk : Desk) (other : FileTree) :
    proceed source result { desk with files := other } =
      (proceed source result desk).map fun ended =>
        (ended.1, { ended.2 with files := other }) := by
  rcases result with (_ | _) | text
  · rfl
  · rfl
  · change (runText source text : AtDesk _) _ = ((runText source text : AtDesk _) desk).map _
    cases correct : Program.ofSource text with
    | error diagnostic =>
      rw [runText_of_refused correct, runText_of_refused correct]
      rfl
    | ok program =>
      rw [runText_of_correct correct, runText_of_correct correct, Option.map_map]
      refine congrArg (Option.map · _) (funext fun stopped => ?_)
      cases fault : stopped.fault <;> simp [closing, fault]

theorem run_files {desk : Desk}
    (same : other.readBytes (Path.ofText source) = desk.files.readBytes (Path.ofText source)) :
    (run source : AtDesk _) { desk with files := other } =
      ((run source : AtDesk _) desk).map fun ended =>
        (ended.1, { ended.2 with files := other }) := by
  obtain ⟨result, taken, taken'⟩ := exists_sourceText same
  rw [run_apply taken, @run_apply source result { desk with files := other } taken']
  exact proceed_files result desk.opened other

theorem eq_files_of_displays_run (displays : Displays (run source) files typed display left) :
    left = files := by
  obtain ⟨budget, after, ended, -, -, rfl⟩ := displays
  have kept := @run_files source files (Desk.start budget files typed) rfl
  change (run source : AtDesk _) (Desk.start budget files typed) = _ at kept
  rw [ended, Option.map_some, Option.some.injEq, Prod.mk.injEq] at kept
  exact congrArg Desk.files kept.2

theorem displays_run_congr
    (same : other.readBytes (Path.ofText source) = files.readBytes (Path.ofText source))
    (displays : Displays (run source) files typed display left) :
    Displays (run source) other typed display other := by
  obtain ⟨budget, after, ended, printed, said, -⟩ := displays
  have moved := @run_files source other (Desk.start budget files typed) same
  rw [ended] at moved
  exact ⟨budget, _, moved, printed, said, rfl⟩

private theorem exists_evaluates_of_runText {desk after : Desk} {conclusion : Conclusion}
    (ended : (runText source text : AtDesk _) desk = some (conclusion, after)) :
    ∃ printed fault input, Evaluates text desk.input printed fault ∧
      closing source { desk with input := input, output := desk.output ++ printed } fault =
        (conclusion, after) := by
  cases correct : Program.ofSource text with
  | error diagnostic =>
    rw [runText_of_refused correct, Option.some.injEq] at ended
    refine ⟨"", some diagnostic, desk.input, .refused correct, ?_⟩
    rw [String.append_empty]
    exact ended
  | ok program =>
    rw [runText_of_correct correct, Option.map_eq_some_iff] at ended
    obtain ⟨stopped, ran, closed⟩ := ended
    exact ⟨_, _, _, .ran correct ran, closed⟩

private theorem exists_runText_of_evaluates {printed : String} {fault : Option Diagnostic}
    (desk : Desk)
    (evaluates : Evaluates text desk.input printed fault) :
    ∃ budget input, (runText source text : AtDesk _) { desk with budget := budget } =
      some (closing source
        { desk with budget := budget, input := input, output := desk.output ++ printed }
        fault) := by
  cases evaluates with
  | @refused diagnostic faulty =>
    refine ⟨desk.budget, desk.input, ?_⟩
    rw [runText_of_refused faulty, String.append_empty]
  | @ran program budget stopped correct ended =>
    refine ⟨budget, stopped.machine.input, ?_⟩
    rw [runText_of_correct correct]
    dsimp only
    rw [ended]
    rfl

/-- The display of a run that closes with its last words. -/
theorem display_of_closing {budget : Nat} {printed : String} {fault : Option Diagnostic}
    {input : List Char} {conclusion : Conclusion} {after : Desk}
    (closed : closing source
      { (Desk.start budget files typed).opened with
        input := input
        output := (Desk.start budget files typed).opened.output ++ printed } fault =
      (conclusion, after)) :
    (⟨conclusion, after.output, after.errors⟩ : Display) = .ofRun source printed fault := by
  cases fault with
  | none =>
    cases closed
    rfl
  | some diagnostic =>
    cases closed
    simp [Display.ofRun, Desk.opened, Desk.start]

private theorem sourceText_of_reads {path : Path} (reads : Compilation.Reads path files text) :
    (Compilation.sourceText path : OnTree _) files = (.ok text, files) := by
  rcases Compilation.sourceText_cases path files with ⟨other, taken, reads'⟩ | ⟨stop, -, unread⟩
  · rw [taken, reads.unique reads']
  · exact absurd reads (unread text)

theorem displays_run_iff (reads : Compilation.Reads (Path.ofText source) files text) :
    Displays (run source) files typed display files ↔
      ∃ printed fault, Evaluates text typed.toList printed fault ∧
        display = .ofRun source printed fault := by
  have taken := sourceText_of_reads reads
  constructor
  · rintro ⟨budget, after, ended, printed, said, -⟩
    rw [@run_apply source _ (Desk.start budget files typed) taken] at ended
    obtain ⟨printed', fault, input, evaluates, closed⟩ := exists_evaluates_of_runText ended
    refine ⟨printed', fault, evaluates, ?_⟩
    rw [← display_of_closing closed, printed, said]
  · rintro ⟨printed, fault, evaluates, rfl⟩
    obtain ⟨budget, input, ended⟩ :=
      @exists_runText_of_evaluates source text printed fault (Desk.start 0 files typed).opened
        evaluates
    have display := @display_of_closing source files typed budget printed fault input _ _ rfl
    refine ⟨budget, _, ?_, congrArg Display.output display, congrArg Display.errors display, ?_⟩
    · rw [@run_apply source _ (Desk.start budget files typed) taken,
        ← congrArg Display.conclusion display]
      exact ended
    · cases fault <;> rfl

/-- A run has one display, also if there is no text to be read. -/
theorem display_unique {display' : Display} {left' : FileTree}
    (first : Displays (run source) files typed display left)
    (second : Displays (run source) files typed display' left') : display = display' := by
  obtain rfl := eq_files_of_displays_run first
  obtain rfl := eq_files_of_displays_run second
  rcases Compilation.sourceText_cases (Path.ofText source) left' with
    ⟨text, -, reads⟩ | ⟨stop, taken, -⟩
  · obtain ⟨printed, fault, evaluates, rfl⟩ := (displays_run_iff reads).mp first
    obtain ⟨printed', fault', evaluates', rfl⟩ := (displays_run_iff reads).mp second
    obtain ⟨rfl, rfl⟩ := evaluates.unique evaluates'
    rfl
  · obtain ⟨conclusion, _, _⟩ := display
    obtain ⟨conclusion', _, _⟩ := display'
    obtain ⟨budget, after, ended, rfl, rfl, -⟩ := first
    obtain ⟨budget', after', ended', rfl, rfl, -⟩ := second
    rw [@run_apply source _ (Desk.start budget _ typed) taken] at ended
    rw [@run_apply source _ (Desk.start budget' _ typed) taken] at ended'
    cases stop with
    | failure failure =>
      obtain ⟨rfl, rfl⟩ := Prod.mk.inj (Option.some.inj ended)
      obtain ⟨rfl, rfl⟩ := Prod.mk.inj (Option.some.inj ended')
      rfl
    | nullCharacter =>
      obtain ⟨rfl, rfl⟩ := Prod.mk.inj (Option.some.inj ended)
      obtain ⟨rfl, rfl⟩ := Prod.mk.inj (Option.some.inj ended')
      rfl

private theorem serve_run {edition : Edition} (library : Settings.Library)
    (asked : Request.ofArguments edition arguments = .ok (.run source)) :
    (serve edition library arguments : AtDesk _) = run source := by
  rw [serve, asked]
  rfl

namespace Sample

/-- A program with the line ends of another system that stops in its second line. -/
def stopping : String :=
  "PRINT \"a\"\r\nPRINT b\r\n"

/-- The program next to a settings file that cannot be read. -/
def unsettled : FileTree where
  entries := [([".teeny.yaml"], .file [0xff]), (["p.teeny"], .file (Text.Utf8.encode stopping))]
  working := []

def alone : FileTree where
  entries := [(["p.teeny"], .file (Text.Utf8.encode stopping))]
  working := []

private theorem reads_unsettled :
    Compilation.Reads (Path.ofText "p.teeny") unsettled "PRINT \"a\"\nPRINT b\n" :=
  ⟨stopping, rfl, by cbv⟩

def stoppingTokens : List Token := [
  ⟨.keyword .printWord, "PRINT", 1⟩, ⟨.string "a", "a", 1⟩, ⟨.newline, "\n", 1⟩,
  ⟨.keyword .printWord, "PRINT", 2⟩, ⟨.identifier "b", "b", 2⟩, ⟨.newline, "\n", 2⟩,
  ⟨.newline, "\n", 3⟩]

set_option maxRecDepth 10000 in
private theorem tokens_stopping :
    Lexer.tokens "PRINT \"a\"\nPRINT b\n" = .ok (stoppingTokens ++ [Token.eofAt 4]) := by
  cbv

/-- The first line is printed before the fault of the second is found. -/
theorem evaluates_stopping :
    Evaluates "PRINT \"a\"\nPRINT b\n" [] "a\n" (some (.unassignedVariable "b" 2)) := by
  have table : Destinations.ofTokens (stoppingTokens ++ [Token.eofAt 4]) = .ok ⟨[], [], 7⟩ := rfl
  have loaded := Program.ofSource_of_tokens tokens_stopping table
  exact @Evaluates.ran _ _ _ 2 _ loaded rfl

end Sample

/-- A run of a file changes no file and shows what evaluating its text on the typed characters
shows, between a banner and the last words.  It shows the same in every tree in which the path leads
to the same bytes. -/
theorem displays_serve_iff_evaluates {edition : Edition}
    (asked : Request.ofArguments edition arguments = .ok (.run source))
    (library : Settings.Library) (files : FileTree) (typed : String) :
    (∀ display left,
      Displays (serve edition library arguments) files typed display left → left = files) ∧
    (∀ display display' left left',
      Displays (serve edition library arguments) files typed display left →
      Displays (serve edition library arguments) files typed display' left' →
      display = display') ∧
    (∀ text, Compilation.Reads (Path.ofText source) files text → ∀ display,
      Displays (serve edition library arguments) files typed display files ↔
        ∃ printed fault, Evaluates text typed.toList printed fault ∧
          display = .ofRun source printed fault) ∧
    ∀ other : FileTree,
      other.readBytes (Path.ofText source) = files.readBytes (Path.ofText source) → ∀ display,
        Displays (serve edition library arguments) other typed display other ↔
          Displays (serve edition library arguments) files typed display files := by
  rw [serve_run library asked]
  refine ⟨fun _ _ => eq_files_of_displays_run, fun _ _ _ _ => display_unique,
    fun text reads display => displays_run_iff reads, ?_⟩
  intro other same display
  exact ⟨displays_run_congr same.symm, displays_run_congr same⟩

theorem displays_serve_iff_evaluates_unsettled :
    Displays (serve .later Sample.strictLibrary ["run", "p.teeny"]) Sample.alone ""
      ⟨.exit 1, "Teeny Tiny Interpreter\na\n",
        "Error: p.teeny: Line 2: Referencing variable before assignment: \"b\"\n"⟩
      Sample.alone := by
  have asked : Request.ofArguments .later ["run", "p.teeny"] = .ok (.run "p.teeny") :=
    ofArguments_words .later .run (by decide)
  obtain ⟨-, -, shown, same⟩ :=
    displays_serve_iff_evaluates asked Sample.strictLibrary Sample.unsettled ""
  rw [same Sample.alone rfl, shown _ Sample.reads_unsettled]
  exact ⟨_, _, Sample.evaluates_stopping, rfl⟩

end CommandLine

end TeenyBasic
