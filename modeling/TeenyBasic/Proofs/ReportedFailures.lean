import TeenyBasic.CommandLine.Service
import TeenyBasic.Settings.Checker
import TeenyBasic.Proofs.FileTroubles
import TeenyBasic.Proofs.ReadArguments

/-!
# Failures are reported

A command that does not succeed says so in a line on the standard error output and exits with code
one.  Running a program always keeps to this.  Compiling does unless it meets one of the troubles
that no one takes care of, and `Unreported` lists them: above all a settings file that is not UTF-8.
All this holds for any libraries that fail only with the errors that they declare.
-/

namespace TeenyBasic

namespace CommandLine

open Files

section Files

variable {α β : Type}

theorem onFiles_bind_apply (work : OnTree α) (next : α → AtDesk β) (desk : Desk) :
    (onFiles work >>= next) desk =
      next (work desk.files).1 { desk with files := (work desk.files).2 } :=
  rfl

theorem printLine_bind_apply (text : String) (next : Unit → AtDesk α) (desk : Desk) :
    ((printLine text : AtDesk _) >>= next) desk =
      next () { desk with output := desk.output ++ (text ++ "\n") } :=
  rfl

/-- Work on files may be put together before or after it is done at a desk.  From this it follows,
function by function, that all work on files is done at a desk as it is done on the tree alone. -/
theorem onFiles_bind (first : OnTree α) (next : α → OnTree β) :
    onFiles (first >>= next) = onFiles first >>= fun value => onFiles (next value) :=
  rfl

theorem readText_eq_onFiles (path : Path) :
    (Compilation.readText path : AtDesk _) = onFiles (Compilation.readText path) := by
  unfold Compilation.readText
  rw [onFiles_bind]
  refine congrArg (onFiles (readBytes path) >>= ·) (funext fun result => ?_)
  cases result with
  | error fault => rfl
  | ok bytes =>
    dsimp only
    split <;> rfl

theorem sourceText_eq_onFiles (path : Path) :
    (Compilation.sourceText path : AtDesk _) = onFiles (Compilation.sourceText path) := by
  unfold Compilation.sourceText
  rw [onFiles_bind, readText_eq_onFiles]
  refine congrArg (onFiles (Compilation.readText path) >>= ·) (funext fun result => ?_)
  split <;> rfl

theorem ensureDirectory_eq_onFiles (path : Path) :
    (ensureDirectory path : AtDesk _) = onFiles (ensureDirectory path) := by
  unfold ensureDirectory
  rw [onFiles_bind]
  refine congrArg (onFiles (makeDirectory path) >>= ·) (funext fun result => ?_)
  split
  · rfl
  · split
    · rfl
    · rw [onFiles_bind]
      refine congrArg (onFiles (isDirectory path) >>= ·) (funext fun result => ?_)
      split <;> rfl

private theorem ensureDirectories_eq_onFiles (path : Path) (count : Nat) :
    (ensureDirectories path count : AtDesk _) = onFiles (ensureDirectories path count) := by
  induction count with
  | zero => exact ensureDirectory_eq_onFiles _
  | succ count induction =>
    unfold ensureDirectories
    dsimp only
    rw [onFiles_bind, ensureDirectory_eq_onFiles]
    refine congrArg (onFiles (ensureDirectory _) >>= ·) (funext fun result => ?_)
    split
    · rfl
    · split
      · rw [onFiles_bind, induction]
        refine congrArg (onFiles (ensureDirectories path count) >>= ·) (funext fun result => ?_)
        split <;> rfl
      · rfl

private theorem writeOutput_eq_onFiles (output : Path) (code : String) :
    (Compilation.writeOutput output code : AtDesk _) =
      onFiles (Compilation.writeOutput output code) := by
  unfold Compilation.writeOutput
  rw [onFiles_bind, ensureDirectories_eq_onFiles]
  refine congrArg (onFiles (ensureDirectories _ _) >>= ·) (funext fun result => ?_)
  split
  · rfl
  · rw [onFiles_bind]
    refine congrArg (onFiles (writeBytes output _) >>= ·) (funext fun result => ?_)
    split <;> rfl

private theorem compilation_eq_onFiles (precision : Int) (source output : Path) :
    (Compilation.run precision source output : AtDesk _) =
      onFiles (Compilation.run precision source output) := by
  unfold Compilation.run
  rw [onFiles_bind, sourceText_eq_onFiles]
  refine congrArg (onFiles (Compilation.sourceText source) >>= ·) (funext fun result => ?_)
  split
  · rfl
  · split
    · rfl
    · rw [onFiles_bind, writeOutput_eq_onFiles]
      refine congrArg (onFiles (Compilation.writeOutput output _) >>= ·) (funext fun result => ?_)
      split <;> rfl

variable (library : Settings.Library)

theorem load_eq_onFiles (path : Path) :
    (library.load path : AtDesk _) = onFiles (library.load path) := by
  unfold Settings.Library.load
  rw [onFiles_bind, readText_eq_onFiles]
  refine congrArg (onFiles (Compilation.readText path) >>= ·) (funext fun result => ?_)
  split <;> rfl

private theorem find_eq_onFiles (directory : Path) :
    (library.find directory : AtDesk _) = onFiles (library.find directory) := by
  unfold Settings.Library.find
  dsimp only
  rw [onFiles_bind, load_eq_onFiles]
  refine congrArg (onFiles (isThere _) >>= ·) (funext fun result => ?_)
  split <;> rfl

private theorem settingsFor_eq_onFiles (config : Option FlagValue) :
    (settingsFor library config : AtDesk _) = onFiles (settingsFor library config) := by
  unfold settingsFor
  split
  · rfl
  · rw [load_eq_onFiles]
    rfl
  · rw [onFiles_bind]
    refine congrArg (onFiles workingDirectory >>= ·) (funext fun result => ?_)
    split
    · rfl
    · rw [find_eq_onFiles]
      rfl

end Files

def workingSettings (tree : FileTree) : Path :=
  Path.child ⟨.root, tree.working⟩ Settings.fileName

/-- What looking for the settings file of the working directory comes to. -/
inductive Search (tree : FileTree) : Except AccessFault Bool → Prop
  | lost (gone : tree.nodeAt? tree.working ≠ some .directory) :
      Search tree (.error (.system .missing none))
  | looked (there : tree.nodeAt? tree.working = some .directory) :
      Search tree (tree.leadsTo (fun _ => true) (workingSettings tree))

/-- The file that settings are to be loaded from. -/
inductive Consults (tree : FileTree) : Option FlagValue → Path → Prop
  | named (text : String) : Consults tree (some (.text text)) (Path.ofText text)
  | found (there : Search tree (.ok true)) : Consults tree none (workingSettings tree)

/-- The settings that a compilation is done with. -/
inductive Loads (library : Settings.Library) (tree : FileTree) : Option FlagValue → Settings → Prop
  | read {config : Option FlagValue} {path : Path} {text : String} {settings : Settings}
      (consults : Consults tree config path) (reads : Compilation.Reads path tree text)
      (given : library.readFile path text = .ok settings) : Loads library tree config settings
  | absent (nothing : Search tree (.ok false)) : Loads library tree none Settings.default

/-- The troubles with settings that are not reported. -/
inductive Unset (tree : FileTree) : Option FlagValue → Escape → Prop
  | noPath : Unset tree (some .nothing) .missingPath
  | search {fault : AccessFault} (refused : Search tree (.error fault)) :
      Unset tree none (.access fault)
  | load {config : Option FlagValue} {path : Path} {fault : Text.Utf8.Fault}
      (consults : Consults tree config path)
      (undecodable : Settings.Undecodable path tree fault) : Unset tree config (.encoding fault)

variable {library : Settings.Library} {tree : FileTree} {path : Path} {config : Option FlagValue}

theorem Search.unique {result other : Except AccessFault Bool} (first : Search tree result)
    (second : Search tree other) : result = other := by
  cases first with
  | lost gone =>
    cases second with
    | lost => rfl
    | looked there => exact absurd there gone
  | looked there =>
    cases second with
    | lost gone => exact absurd there gone
    | looked => rfl

theorem Consults.unique {other : Path} (consults : Consults tree config path)
    (consults' : Consults tree config other) : path = other := by
  cases consults <;> cases consults' <;> rfl

private theorem loads_iff_of_consults {settings : Settings} (consults : Consults tree config path) :
    Loads library tree config settings ↔
      ((library.load path : OnTree _) tree).1 = .ok settings := by
  rw [Settings.Library.load_eq_ok_iff]
  constructor
  · intro loads
    cases loads with
    | read consults' reads given =>
      obtain rfl := consults.unique consults'
      exact ⟨_, reads, given⟩
    | absent nothing =>
      cases consults with
      | found there => cases there.unique nothing
  · rintro ⟨text, reads, given⟩
    exact .read consults reads given

private theorem unset_iff_of_consults (declared : library.OnlyDeclared) {fault : Escape}
    (noNull : path.holdsNull = false) (consults : Consults tree config path) :
    Unset tree config fault ↔
      ∃ stop, ((library.load path : OnTree _) tree).1 = .error stop ∧
        Trouble.ofSettings stop = .escaped fault := by
  constructor
  · intro unset
    cases unset with
    | noPath => cases consults
    | search refused =>
      cases consults with
      | found there => cases there.unique refused
    | @load _ _ fault consults' undecodable =>
      obtain rfl := consults.unique consults'
      refine ⟨.encoding fault, ?_, rfl⟩
      rw [declared.load_eq_error_iff noNull (by simp)]
      exact ⟨fault, rfl, undecodable⟩
  · rintro ⟨stop, stopped, escapes⟩
    have unreported (failure : Settings.Failure library) : stop ≠ .failure failure := by
      rintro rfl
      cases escapes
    obtain ⟨fault, rfl, undecodable⟩ := (declared.load_eq_error_iff noNull unreported).mp stopped
    cases escapes
    exact .load consults undecodable

/-- The result of looking for settings tells what is to be found. -/
structure Settles (library : Settings.Library) (tree : FileTree) (config : Option FlagValue)
    (result : Except Trouble Settings) : Prop where
  settings_iff : ∀ settings, result = .ok settings ↔ Loads library tree config settings
  escape_iff : ∀ fault, result = .error (.escaped fault) ↔ Unset tree config fault

theorem settles_of_consults (declared : library.OnlyDeclared) (noNull : path.holdsNull = false)
    (consults : Consults tree config path) :
    Settles library tree config
      (((library.load path : OnTree _) tree).1.mapError Trouble.ofSettings) := by
  constructor
  · intro settings
    rw [loads_iff_of_consults consults]
    cases ((library.load path : OnTree _) tree).1 <;> simp [Except.mapError]
  · intro fault
    rw [unset_iff_of_consults declared noNull consults]
    cases ((library.load path : OnTree _) tree).1 <;> simp [Except.mapError]

private theorem settles_nothing (library : Settings.Library) (tree : FileTree) :
    Settles library tree (some .nothing) (.error (.escaped .missingPath)) := by
  have noFile (path : Path) : ¬Consults tree (some .nothing) path := by
    rintro ⟨⟩
  constructor
  · intro settings
    refine ⟨nofun, fun loads => ?_⟩
    cases loads with
    | read consults => exact absurd consults (noFile _)
  · intro fault
    constructor
    · rintro ⟨⟩
      exact .noPath
    · intro unset
      cases unset with
      | noPath => rfl
      | load consults => exact absurd consults (noFile _)

theorem settles_of_refused {fault : AccessFault} (refused : Search tree (.error fault)) :
    Settles library tree none (.error (.escaped (.access fault))) := by
  have noFile (path : Path) : ¬Consults tree none path := by
    intro consults
    cases consults with
    | found there => cases there.unique refused
  constructor
  · intro settings
    refine ⟨nofun, fun loads => ?_⟩
    cases loads with
    | read consults => exact absurd consults (noFile _)
    | absent nothing => cases nothing.unique refused
  · intro other
    constructor
    · rintro ⟨⟩
      exact .search refused
    · intro unset
      cases unset with
      | search refused' =>
        obtain rfl := Except.error.inj (refused.unique refused')
        rfl
      | load consults => exact absurd consults (noFile _)

private theorem settles_of_absent (nothing : Search tree (.ok false)) :
    Settles library tree none (.ok Settings.default) := by
  have noFile (path : Path) : ¬Consults tree none path := by
    intro consults
    cases consults with
    | found there => cases there.unique nothing
  constructor
  · intro settings
    constructor
    · rintro ⟨⟩
      exact .absent nothing
    · intro loads
      cases loads with
      | read consults => exact absurd consults (noFile _)
      | absent => rfl
  · intro fault
    refine ⟨nofun, fun unset => ?_⟩
    cases unset with
    | search refused => cases nothing.unique refused
    | load consults => exact absurd consults (noFile _)

private theorem workingDirectory_bind_apply {α : Type} (next : Except AccessFault Path → OnTree α)
    (tree : FileTree) :
    ((workingDirectory : OnTree _) >>= next) tree = next tree.workingDirectory tree :=
  rfl

/-- Looking in the working directory changes nothing. -/
theorem exists_settingsFor_none (declared : library.OnlyDeclared) (tree : FileTree) :
    ∃ result, (settingsFor library none : OnTree _) tree = (result, tree) ∧
      Settles library tree none result := by
  rw [settingsFor, workingDirectory_bind_apply, FileTree.workingDirectory]
  by_cases there : tree.nodeAt? tree.working = some .directory
  · have search := Search.looked there
    rw [there]
    dsimp only
    rw [OnTree.bind_apply, Settings.Library.find_apply, ← workingSettings]
    cases leads : tree.leadsTo (fun _ => true) (workingSettings tree) with
    | error fault => exact ⟨_, rfl, settles_of_refused (leads ▸ search)⟩
    | ok isThere =>
      cases isThere with
      | false => exact ⟨_, rfl, settles_of_absent (leads ▸ search)⟩
      | true =>
        have noNull := FileTree.holdsNull_of_leadsTo leads
        refine ⟨_, ?_, settles_of_consults declared noNull (.found (leads ▸ search))⟩
        exact Prod.ext rfl (library.load_snd _ _)
  · have lost := @settles_of_refused library tree _ (.lost there)
    split
    · next held => exact absurd held there
    · exact ⟨_, rfl, lost⟩

/-- Looking for settings changes nothing. -/
theorem exists_settingsFor (declared : library.OnlyDeclared) (tree : FileTree)
    (noNull : ∀ text, config = some (.text text) → '\x00' ∉ text.toList) :
    ∃ result, (settingsFor library config : OnTree _) tree = (result, tree) ∧
      Settles library tree config result := by
  match config with
  | some .nothing => exact ⟨_, rfl, settles_nothing library tree⟩
  | some (.text text) =>
    have noNull := Path.holdsNull_ofText (noNull text rfl)
    refine ⟨_, ?_, settles_of_consults declared noNull (.named text)⟩
    exact Prod.ext rfl (library.load_snd _ _)
  | none => exact exists_settingsFor_none declared tree

/-- How a conclusion shows on the standard error output.  Only a reported failure is told there, in
one line. -/
inductive Told (desk after : Desk) : Conclusion → Prop
  | success (quiet : after.errors = desk.errors) : Told desk after (.exit 0)
  | failure (message : String)
      (said : after.errors = desk.errors ++ ("Error: " ++ message ++ "\n")) :
      Told desk after (.exit 1)
  | escape (fault : Escape) (quiet : after.errors = desk.errors) : Told desk after (.escape fault)

def FlagValue.paths : Option FlagValue → List String
  | some (.text path) => [path]
  | _ => []

def Request.paths : Request → List String
  | help _ => []
  | compile source output config => source :: (FlagValue.paths output ++ FlagValue.paths config)
  | run source => [source]

def Overruns (desk : Desk) : Request → Prop
  | .run source =>
      ∃ text program, Compilation.Reads (Path.ofText source) desk.files text ∧
        Program.ofSource text = .ok program ∧
        (Machine.start program desk.input).run? desk.budget = none
  | _ => False

/-- The troubles that are not reported. -/
inductive Unreported (library : Settings.Library) (tree : FileTree) : Request → Escape → Prop
  | settings {source : String} {output config : Option FlagValue} {fault : Escape}
      (unset : Unset tree config fault) :
      Unreported library tree (.compile source output config) fault
  | noOutput {source : String} {config : Option FlagValue} {settings : Settings}
      (loads : Loads library tree config settings) :
      Unreported library tree (.compile source (some .nothing) config) .missingPath
  /-- The settings put the output at a path that is none. -/
  | nullOutput {source : String} {config : Option FlagValue} {settings : Settings} {code : String}
      (loads : Loads library tree config settings)
      (translates :
        Compilation.Translates settings.printPrecision (Path.ofText source) tree code)
      (meets : Compilation.MeetsNull (Path.ofText settings.outputPath) tree) :
      Unreported library tree (.compile source none config) (.access .nullCharacter)

/-- Serving a request ends unless a program goes on for too long, and how it ends is told unless it
is by one of the troubles that are not reported. -/
structure Reports (library : Settings.Library) (desk : Desk) (request : Request)
    (outcome : Option (Conclusion × Desk)) : Prop where
  none_iff : outcome = none ↔ Overruns desk request
  told : ∀ conclusion after, outcome = some (conclusion, after) → Told desk after conclusion
  escape_iff : ∀ conclusion after, outcome = some (conclusion, after) →
    ∀ fault, conclusion = .escape fault ↔ Unreported library desk.files request fault

def Trouble.conclusion : Trouble → Conclusion
  | reported _ => .exit 1
  | escaped fault => .escape fault

@[simp] theorem conclusion_eq_escape_iff {trouble : Trouble} {fault : Escape} :
    trouble.conclusion = .escape fault ↔ trouble = .escaped fault := by
  cases trouble <;> simp [Trouble.conclusion]

theorem exists_giveUp (trouble : Trouble) {desk now : Desk} (quiet : now.errors = desk.errors) :
    ∃ after, (giveUp trouble : AtDesk _) now = some (trouble.conclusion, after) ∧
      Told desk after trouble.conclusion := by
  cases trouble with
  | reported message =>
    refine ⟨_, rfl, .failure message ?_⟩
    rw [← quiet]
  | escaped fault => exact ⟨now, rfl, .escape fault quiet⟩

theorem reports_of_conclusion {desk after : Desk} {request : Request} {conclusion : Conclusion}
    (inTime : ¬Overruns desk request) (told : Told desk after conclusion)
    (escape_iff :
      ∀ fault, conclusion = .escape fault ↔ Unreported library desk.files request fault) :
    Reports library desk request (some (conclusion, after)) where
  none_iff := ⟨nofun, fun overruns => absurd overruns inTime⟩
  told := by
    rintro _ _ ⟨⟩
    exact told
  escape_iff := by
    rintro _ _ ⟨⟩
    exact escape_iff

variable {source : String} {output : Option FlagValue} {settings : Settings}

theorem exists_compileWith (settings : Settings) (noNull : '\x00' ∉ source.toList) (output : Path)
    {desk now : Desk} (quiet : now.errors = desk.errors) :
    ∃ conclusion after,
      (compileWith settings source output : AtDesk _) now = some (conclusion, after) ∧
      Told desk after conclusion ∧
      ∀ fault, conclusion = .escape fault ↔ fault = .access .nullCharacter ∧
        (∃ code,
          Compilation.Translates settings.printPrecision (Path.ofText source) now.files code) ∧
        Compilation.MeetsNull output now.files := by
  simp only [← Compilation.run_eq_nullCharacter_iff (Path.holdsNull_ofText noNull)]
  rw [compileWith, compilation_eq_onFiles, onFiles_bind_apply]
  generalize (Compilation.run settings.printPrecision (Path.ofText source) output :
    OnTree _) now.files = outcome
  obtain ⟨stop | code, files⟩ := outcome
  · obtain ⟨after, ends, told⟩ := @exists_giveUp (.ofCompilation stop) desk { now with files } quiet
    refine ⟨_, after, ends, told, fun fault => ?_⟩
    rw [conclusion_eq_escape_iff]
    cases stop <;> simp [Trouble.ofCompilation, eq_comm]
  · dsimp only
    cases settings.echoCode <;> exact ⟨.exit 0, _, rfl, .success quiet, by simp⟩

private theorem unreported_iff_of_settles_error {trouble : Trouble} {fault : Escape}
    (settles : Settles library tree config (.error trouble)) :
    Unreported library tree (.compile source output config) fault ↔
      trouble = .escaped fault := by
  have unloaded (settings : Settings) : ¬Loads library tree config settings := by
    rw [← settles.settings_iff]
    exact nofun
  constructor
  · intro unreported
    cases unreported with
    | settings unset => exact Except.error.inj ((settles.escape_iff fault).mpr unset)
    | noOutput loads => exact absurd loads (unloaded _)
    | nullOutput loads => exact absurd loads (unloaded _)
  · rintro rfl
    exact .settings ((settles.escape_iff fault).mp rfl)

theorem unreported_iff_of_settles_ok {fault : Escape}
    (settles : Settles library tree config (.ok settings)) :
    Unreported library tree (.compile source output config) fault ↔
      output = some .nothing ∧ fault = .missingPath ∨
      output = none ∧ fault = .access .nullCharacter ∧
        (∃ code, Compilation.Translates settings.printPrecision (Path.ofText source) tree code) ∧
        Compilation.MeetsNull (Path.ofText settings.outputPath) tree := by
  have loads : Loads library tree config settings := (settles.settings_iff settings).mp rfl
  constructor
  · intro unreported
    cases unreported with
    | settings unset => cases (settles.escape_iff fault).mpr unset
    | noOutput => exact .inl ⟨rfl, rfl⟩
    | nullOutput loads' translates meets =>
      obtain rfl := Except.ok.inj ((settles.settings_iff _).mpr loads')
      exact .inr ⟨rfl, rfl, ⟨_, translates⟩, meets⟩
  · rintro (⟨rfl, rfl⟩ | ⟨rfl, rfl, ⟨code, translates⟩, meets⟩)
    · exact .noOutput loads
    · exact .nullOutput loads translates meets

/-- Compiling reports its failures, apart from those in the list. -/
theorem reports_compile (declared : library.OnlyDeclared)
    (noNull : ∀ path ∈ (Request.compile source output config).paths, '\x00' ∉ path.toList)
    (desk : Desk) :
    Reports library desk (.compile source output config)
      ((compile library source output config : AtDesk _) desk) := by
  simp only [Request.paths, List.mem_cons, List.mem_append, forall_eq_or_imp] at noNull
  obtain ⟨sourceNoNull, flagsNoNull⟩ := noNull
  obtain ⟨result, looked, settles⟩ := @exists_settingsFor library config declared desk.files (by
    rintro text rfl
    exact flagsNoNull text (.inr List.mem_cons_self))
  let banner : Desk := { desk with output := desk.output ++ ("Teeny Tiny Compiler" ++ "\n") }
  rw [compile, settingsFor_eq_onFiles, printLine_bind_apply, onFiles_bind_apply]
  dsimp only
  rw [looked]
  cases result with
  | error trouble =>
    obtain ⟨after, ends, told⟩ := @exists_giveUp trouble desk banner rfl
    change Reports library desk _ ((giveUp trouble : AtDesk _) banner)
    rw [ends]
    refine reports_of_conclusion id told fun fault => ?_
    rw [conclusion_eq_escape_iff, unreported_iff_of_settles_error settles]
  | ok settings =>
    rcases output with _ | path | _
    · obtain ⟨conclusion, after, ends, told, escape_iff⟩ :=
        @exists_compileWith source settings sourceNoNull (Path.ofText settings.outputPath) desk
          banner rfl
      change Reports library desk _
        ((compileWith settings source (Path.ofText settings.outputPath) : AtDesk _) banner)
      rw [ends]
      refine reports_of_conclusion id told fun fault => ?_
      rw [escape_iff, unreported_iff_of_settles_ok settles]
      simp [banner]
    · -- a path that is asked for has no null character: only settings can name such an output
      have pathNoNull : (Path.ofText path).holdsNull = false :=
        Path.holdsNull_ofText (flagsNoNull path (.inl List.mem_cons_self))
      obtain ⟨conclusion, after, ends, told, escape_iff⟩ :=
        @exists_compileWith source settings sourceNoNull (Path.ofText path) desk banner rfl
      change Reports library desk _
        ((compileWith settings source (Path.ofText path) : AtDesk _) banner)
      rw [ends]
      refine reports_of_conclusion id told fun fault => ?_
      rw [escape_iff, unreported_iff_of_settles_ok settles, Compilation.MeetsNull, pathNoNull]
      simp
    · refine reports_of_conclusion id (.escape .missingPath rfl) fun fault => ?_
      rw [unreported_iff_of_settles_ok settles]
      simp [eq_comm]

theorem execute_bind_apply {α : Type} (program : Program) (next : Option Diagnostic → AtDesk α)
    (desk : Desk) :
    ((execute program : AtDesk _) >>= next) desk =
      match (Machine.start program desk.input).run? desk.budget with
      | none => none
      | some stopped =>
          next stopped.fault { desk with
            input := stopped.machine.input
            output := desk.output ++ stopped.machine.output } := by
  have unfolded : ((execute program : AtDesk _) >>= next) desk =
      ((execute program : AtDesk _) desk).bind fun done => next done.1 done.2 := rfl
  have ran : (execute program : AtDesk _) desk =
      match (Machine.start program desk.input).run? desk.budget with
      | none => none
      | some stopped =>
          some (stopped.fault, { desk with
            input := stopped.machine.input
            output := desk.output ++ stopped.machine.output }) := rfl
  rw [unfolded, ran]
  cases (Machine.start program desk.input).run? desk.budget <;> rfl

theorem not_unreported_run (library : Settings.Library) (tree : FileTree) (source : String)
    (fault : Escape) : ¬Unreported library tree (.run source) fault := by
  rintro ⟨⟩

theorem reports_of_reported {desk now : Desk} (quiet : now.errors = desk.errors)
    (inTime : ¬Overruns desk (.run source)) (message : String) :
    Reports library desk (.run source) ((giveUp (.reported message) : AtDesk _) now) := by
  obtain ⟨after, ends, told⟩ := exists_giveUp (.reported message) quiet
  rw [ends]
  refine reports_of_conclusion inTime told fun fault => ?_
  simp [Trouble.conclusion, not_unreported_run]

private theorem overruns_run_iff {desk : Desk} {text : String}
    (reads : Compilation.Reads (Path.ofText source) desk.files text) :
    Overruns desk (.run source) ↔ ∃ program, Program.ofSource text = .ok program ∧
      (Machine.start program desk.input).run? desk.budget = none := by
  constructor
  · rintro ⟨other, program, reads', correct, endless⟩
    obtain rfl := reads.unique reads'
    exact ⟨program, correct, endless⟩
  · rintro ⟨program, correct, endless⟩
    exact ⟨text, program, reads, correct, endless⟩

private theorem reports_of_overruns {desk : Desk} {request : Request}
    (overruns : Overruns desk request) : Reports library desk request none where
  none_iff := iff_of_true rfl overruns
  told conclusion after ended := by cases ended
  escape_iff conclusion after ended := by cases ended

private theorem reports_runText {desk now : Desk} {text : String}
    (reads : Compilation.Reads (Path.ofText source) desk.files text)
    (quiet : now.errors = desk.errors) (sameInput : now.input = desk.input)
    (sameBudget : now.budget = desk.budget) :
    Reports library desk (.run source) ((runText source text : AtDesk _) now) := by
  -- the text is all that decides which program is run, and whether it ends
  have overruns_iff := overruns_run_iff reads
  unfold runText
  cases correct : Program.ofSource text with
  | error diagnostic =>
    refine reports_of_reported quiet ?_ _
    rw [overruns_iff, correct]
    rintro ⟨program, ⟨⟩, -⟩
  | ok program =>
    rw [correct] at overruns_iff
    simp only [Except.ok.injEq, exists_eq_left', ← sameInput, ← sameBudget] at overruns_iff
    dsimp only
    rw [execute_bind_apply]
    cases ran : (Machine.start program now.input).run? now.budget with
    | none => exact reports_of_overruns (overruns_iff.mpr ran)
    | some stopped =>
      have inTime : ¬Overruns desk (.run source) := by
        rw [overruns_iff, ran]
        exact nofun
      dsimp only
      cases stopped.fault with
      | some diagnostic =>
        refine reports_of_reported ?_ inTime (source ++ ": " ++ diagnostic.message)
        exact quiet
      | none =>
        refine reports_of_conclusion inTime (.success quiet) fun fault => ?_
        simp [not_unreported_run]

/-- Running a program reports every failure. -/
theorem reports_run (library : Settings.Library) (noNull : '\x00' ∉ source.toList) (desk : Desk) :
    Reports library desk (.run source) ((run source : AtDesk _) desk) := by
  let banner : Desk := { desk with output := desk.output ++ ("Teeny Tiny Interpreter" ++ "\n") }
  have nullCharacter_iff :=
    Compilation.sourceText_eq_nullCharacter_iff (Path.ofText source) desk.files
  rw [run, sourceText_eq_onFiles, printLine_bind_apply, onFiles_bind_apply]
  dsimp only
  rcases Compilation.sourceText_cases (Path.ofText source) desk.files with
    ⟨text, taken, reads⟩ | ⟨stop, taken, unread⟩
  · rw [taken]
    exact reports_runText reads rfl rfl rfl
  · rw [taken, Path.holdsNull_ofText noNull] at nullCharacter_iff
    rw [taken]
    cases stop with
    | nullCharacter => simp at nullCharacter_iff
    | failure failure =>
      refine @reports_of_reported library source desk banner rfl ?_ failure.message
      rintro ⟨text, program, reads, -⟩
      exact unread text reads

/-- A request that has a text for every flag with a value does not end for want of a path. -/
theorem Unreported.ne_missingPath {request : Request} {fault : Escape}
    (unreported : Unreported library tree request fault) (named : request.Named) :
    fault ≠ .missingPath := by
  rintro rfl
  cases unreported with
  | settings unset =>
    cases unset with
    | noPath => exact named.2 rfl
  | noOutput => exact named.1 rfl

namespace Sample

/-- The standard libraries, but that every refusal of a text counts as declared. -/
def strictLibrary : Settings.Library :=
  { Settings.standardLibrary with
    read := fun text =>
      match Settings.standardLibrary.read text with
      | .ok content => .ok content
      | .error (.declared message) => .error (.declared message)
      | .error (.foreign error) => .error (.declared error.message) }

theorem onlyDeclared_strictLibrary : strictLibrary.OnlyDeclared where
  read text error := by
    unfold strictLibrary
    dsimp only
    split <;> simp
  check entries error := by
    change (Settings.ofEntries entries).mapError Settings.Raised.declared ≠ _
    intro refused
    cases checked : Settings.ofEntries entries <;> rw [checked] at refused <;> cases refused

/-- A program to be compiled, next to a settings file of one byte. -/
def undecodable : FileTree where
  entries := [([".teeny.yaml"], .file [0xff]),
    (["p.teeny"], .file (Text.Utf8.encode "PRINT \"hi\"\n"))]
  working := []

def desk : Desk :=
  Desk.start 0 undecodable ""

def strayByte : Text.Utf8.Fault :=
  ⟨0, 0xff, 0, .invalidStart⟩

theorem ofArguments_compile (edition : Edition) :
    Request.ofArguments edition ["compile", "p.teeny"] = .ok (.compile "p.teeny" none none) :=
  ofArguments_words edition .compile (by decide)

theorem noNull_compile (path : String)
    (named : path ∈ (Request.compile "p.teeny" none none).paths) : '\x00' ∉ path.toList := by
  obtain rfl := List.mem_singleton.mp named
  decide

theorem undecodable_settings :
    Settings.Undecodable (workingSettings undecodable) undecodable strayByte := by
  have undecoded : Text.Utf8.decode [0xff] = .error strayByte := by cbv
  exact ⟨_, rfl, undecoded⟩

end Sample

/-- With libraries that fail only as they declare, serving a request reports every failure but those
of `Unreported`, and loading settings ends in settings or a report but where the file is no text.
In the later edition no command ends for want of a path. -/
theorem reports_serve {edition : Edition} {library : Settings.Library}
    (declared : library.OnlyDeclared) {arguments : List String} {request : Request}
    (accepted : Request.ofArguments edition arguments = .ok request)
    (noNull : ∀ path ∈ request.paths, '\x00' ∉ path.toList) (desk : Desk) :
    Reports library desk request ((serve edition library arguments : AtDesk _) desk) ∧
    (∀ path stop, path.holdsNull = false → (∀ failure, stop ≠ .failure failure) →
      (((library.load path : OnTree _) desk.files).1 = .error stop ↔
        ∃ fault, stop = .encoding fault ∧ Settings.Undecodable path desk.files fault)) ∧
    (edition = .later →
      ∀ fault, Unreported library desk.files request fault → fault ≠ .missingPath) := by
  refine ⟨?_, fun path stop => declared.load_eq_error_iff, ?_⟩
  · unfold serve
    rw [accepted]
    cases request with
    | help level =>
      refine reports_of_conclusion id (.success rfl) fun fault => ⟨nofun, ?_⟩
      rintro ⟨⟩
    | compile source output config => exact reports_compile declared noNull desk
    | run source => exact reports_run library (noNull source List.mem_cons_self) desk
  · rintro rfl fault unreported
    exact unreported.ne_missingPath (named_of_ofArguments accepted)

theorem reports_serve_undecodable :
    Sample.strictLibrary.OnlyDeclared ∧
      (serve .later Sample.strictLibrary ["compile", "p.teeny"] : AtDesk _) Sample.desk ≠ none ∧
      ((Sample.strictLibrary.load (workingSettings Sample.undecodable) : OnTree _)
        Sample.undecodable).1 = .error (.encoding Sample.strayByte) := by
  obtain ⟨reports, load_iff, -⟩ :=
    reports_serve Sample.onlyDeclared_strictLibrary (Sample.ofArguments_compile .later)
      Sample.noNull_compile Sample.desk
  refine ⟨Sample.onlyDeclared_strictLibrary, ?_, ?_⟩
  · rw [Ne, reports.none_iff]
    exact id
  · exact (load_iff _ _ rfl (by simp)).mpr ⟨_, rfl, Sample.undecodable_settings⟩

theorem Sample.exists_escape (edition : Edition) :
    ∃ after, (serve edition strictLibrary ["compile", "p.teeny"] : AtDesk _) desk =
      some (.escape (.encoding strayByte), after) ∧ after.errors = "" := by
  have reports := reports_compile onlyDeclared_strictLibrary noNull_compile desk
  have unreported : Unreported strictLibrary desk.files (.compile "p.teeny" none none)
      (.encoding strayByte) :=
    .settings (.load (.found (.looked rfl)) undecodable_settings)
  rw [serve, ofArguments_compile]
  cases ended : (compile strictLibrary "p.teeny" none none : AtDesk _) desk with
  | none => exact absurd (reports.none_iff.mp ended) id
  | some outcome =>
    obtain ⟨conclusion, after⟩ := outcome
    obtain rfl := (reports.escape_iff _ _ ended _).mpr unreported
    refine ⟨after, ended, ?_⟩
    cases reports.told _ _ ended with
    | escape _ quiet => exact quiet

/-- A settings file that is not UTF-8 ends the program on the spot, and nothing is said. -/
theorem serve_undecodable :
    (∃ after,
      (serve .earlier Sample.strictLibrary ["compile", "p.teeny"] : AtDesk _) Sample.desk =
        some (.escape (.encoding Sample.strayByte), after) ∧ after.errors = "") ∧
    ∃ after,
      (serve .later Sample.strictLibrary ["compile", "p.teeny"] : AtDesk _) Sample.desk =
        some (.escape (.encoding Sample.strayByte), after) ∧ after.errors = "" :=
  ⟨Sample.exists_escape .earlier, Sample.exists_escape .later⟩

end CommandLine

end TeenyBasic
