import TeenyBasic.CommandLine.Argument

/-!
# Requests

What arguments ask for.  A command takes one word, the source file, which is the first word that
is not the value of a flag.  Every further word and every unknown flag is left over, and
arguments that are left over are refused once the command has read everything else.

A request for help is granted as soon as it is read, whatever follows.
-/

namespace TeenyBasic
namespace CommandLine

/-- The value of a flag. -/
inductive FlagValue
  | text (value : String)
  /-- The mark that ends the flags was attached, which leaves nothing in the earlier edition. -/
  | nothing
  deriving DecidableEq, Repr

inductive Request
  | help (level : Level)
  | compile (source : String) (output config : Option FlagValue)
  | run (source : String)
  deriving DecidableEq, Repr

/-- Why the reading of arguments ends early. -/
inductive Interruption
  | help
  | fault (fault : UsageFault)
  deriving DecidableEq, Repr

/-- The flags written in one argument: whether there is one for help, and the last one, with the
value attached to it. -/
structure FlagGroup where
  asksHelp : Bool
  last : Flag
  attached : Option String
  deriving DecidableEq, Repr

/-- Takes apart what is attached to a flag.  Behind a letter that takes no value more letters may
follow, and in the later edition the first that is no flag ends them. -/
def Level.group (edition : Edition) (level : Level) (asksHelp : Bool) (flag : Flag)
    (isLetter byEquals : Bool) : List Char → Except UsageFault FlagGroup
  | [] =>
      if flag.takesValue then .ok ⟨asksHelp, flag, some ""⟩ else .error (.unusedValue flag "")
  | letter :: behind =>
      let unused := UsageFault.unusedValue flag (String.ofList (letter :: behind))
      if flag.takesValue then .ok ⟨asksHelp, flag, some (String.ofList (letter :: behind))⟩
      else if !isLetter || (edition = .later && (byEquals || letter = '-')) then .error unused
      else
        match level.flag? (String.ofList ['-', letter]) with
        | some next =>
            match edition, behind with
            | _, [] => .ok ⟨true, next, none⟩
            | .later, '=' :: value => level.group edition true next true true value
            | _, behind => level.group edition true next true false behind
        | none =>
            match edition with
            | .earlier => .error unused
            | .later => .ok ⟨true, flag, none⟩

def Level.groupOf (edition : Edition) (level : Level) (use : FlagUse) :
    Except UsageFault FlagGroup :=
  match use.attached with
  | none => .ok ⟨false, use.flag, none⟩
  | some attached => level.group edition false use.flag use.isLetter use.byEquals attached

/-- What a command has read so far. -/
structure Gathered where
  source : Option String
  output : Option FlagValue
  config : Option FlagValue
  leftOver : List String
  deriving DecidableEq, Repr

namespace Gathered

def empty : Gathered where
  source := none
  output := none
  config := none
  leftOver := []

def leave (gathered : Gathered) (text : String) : Gathered :=
  { gathered with leftOver := gathered.leftOver ++ [text] }

/-- Gives a flag its value, replacing an earlier one. -/
def setFlag (edition : Edition) (gathered : Gathered) (flag : Flag) (value : String) : Gathered :=
  let value :=
    if edition = .earlier && value = separatorText then FlagValue.nothing else .text value
  match flag with
  | .help => gathered
  | .output => { gathered with output := some value }
  | .config => { gathered with config := some value }

end Gathered

/-- Reads an argument with flags.  The last flag in it may take the argument that follows as its
value; gives the number of following arguments that were used. -/
def Level.readFlags (edition : Edition) (level : Level) (use : FlagUse) (rest : List Argument)
    (gathered : Gathered) : Except Interruption (Gathered × Nat) :=
  match level.groupOf edition use with
  | .error fault => .error (.fault fault)
  | .ok group =>
      if group.last.takesValue then
        match group.attached, rest with
        | some value, _ =>
            if group.asksHelp then .error .help
            else .ok (gathered.setFlag edition group.last value, 0)
        | none, ⟨value, .word⟩ :: _ =>
            if group.asksHelp then .error .help
            else .ok (gathered.setFlag edition group.last value, 1)
        | none, _ => .error (.fault (.missingValue group.last))
      else .error .help

/-- Reads the arguments of a command.  The separator is dropped on either side of the source, and
left over elsewhere. -/
def Level.gather (edition : Edition) (level : Level) (gathered : Gathered) :
    List Argument → Except Interruption Gathered
  | [] => .ok gathered
  | ⟨text, .word⟩ :: rest =>
      if gathered.source.isNone then
        let taken := { gathered with source := some text }
        match rest with
        | ⟨_, .separator⟩ :: rest => level.gather edition taken rest
        | rest => level.gather edition taken rest
      else level.gather edition (gathered.leave text) rest
  | ⟨text, .separator⟩ :: rest =>
      if gathered.source.isNone && !rest.isEmpty then level.gather edition gathered rest
      else level.gather edition (gathered.leave text) rest
  | ⟨text, .unknownFlag⟩ :: rest => level.gather edition (gathered.leave text) rest
  | ⟨_, .flag use⟩ :: rest =>
      match level.readFlags edition use rest gathered with
      | .error interruption => .error interruption
      | .ok (gathered, used) => level.gather edition gathered (rest.drop used)
termination_by arguments => arguments.length
decreasing_by
  all_goals simp only [List.length_cons, List.length_drop]
  all_goals omega

def Command.request (command : Command) (source : String) (gathered : Gathered) : Request :=
  match command with
  | .compile => .compile source gathered.output gathered.config
  | .run => .run source

/-- A refusal of arguments, by one of the readers. -/
structure Refusal where
  level : Level
  fault : UsageFault
  deriving DecidableEq, Repr

/-- Reads the arguments of a command, after the program has left some over. -/
def Command.read (edition : Edition) (command : Command) (leftOver : List String)
    (arguments : List String) : Except Refusal Request :=
  let level := Level.command command
  match level.sort arguments with
  | .error fault => .error ⟨level, fault⟩
  | .ok arguments =>
      match level.gather edition .empty arguments with
      | .error .help => .ok (.help level)
      | .error (.fault fault) => .error ⟨level, fault⟩
      | .ok gathered =>
          match gathered.source, leftOver ++ gathered.leftOver with
          | none, _ => .error ⟨level, .missingSource⟩
          | some source, [] => .ok (command.request source gathered)
          | some _, leftOver => .error ⟨.program, .unrecognized leftOver⟩

def readCommand (edition : Edition) (leftOver : List String) (word : String)
    (rest : List Argument) : Except Refusal Request :=
  match Command.ofName? word with
  | none => .error ⟨.program, .unknownCommand word⟩
  | some command => command.read edition leftOver (rest.map (·.text))

/-- Reads arguments up to the command.  Without a command the program shows its help. -/
def readArguments (edition : Edition) (leftOver : List String) :
    List Argument → Except Refusal Request
  | [] =>
      if leftOver.isEmpty then .ok (.help .program)
      else .error ⟨.program, .unrecognized leftOver⟩
  | ⟨text, .word⟩ :: rest => readCommand edition leftOver text rest
  | ⟨text, .separator⟩ :: rest =>
      if rest.isEmpty then readArguments edition (leftOver ++ [text]) rest
      else readCommand edition leftOver text rest
  | ⟨text, .unknownFlag⟩ :: rest => readArguments edition (leftOver ++ [text]) rest
  | ⟨_, .flag use⟩ :: _ =>
      match Level.program.groupOf edition use with
      | .error fault => .error ⟨.program, fault⟩
      | .ok _ => .ok (.help .program)

def Request.ofArguments (edition : Edition) (arguments : List String) :
    Except Refusal Request :=
  match Level.program.sort arguments with
  | .error fault => .error ⟨.program, fault⟩
  | .ok arguments => readArguments edition [] arguments

end CommandLine
end TeenyBasic
