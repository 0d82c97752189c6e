/-!
# Commands and flags

The program has two commands.  Arguments are read twice: by the program as a whole, up to the
command, and then by the command.  Each of these levels knows flags of its own, which may have
several spellings.
-/

namespace TeenyBasic
namespace CommandLine

/-- What the program can be told to do. -/
inductive Command
  | compile
  | run
  deriving DecidableEq, Repr

namespace Command

def name : Command → String
  | compile => "compile"
  | run => "run"

def all : List Command :=
  [compile, run]

/-- The command that a word stands for; words are not shortened. -/
def ofName? (word : String) : Option Command :=
  all.find? fun command => command.name = word

end Command

/-- Who reads arguments. -/
inductive Level
  | program
  | command (command : Command)
  deriving DecidableEq, Repr

/-- A switch or a named value. -/
inductive Flag
  | help
  | output
  | config
  deriving DecidableEq, Repr

namespace Flag

def takesValue : Flag → Bool
  | help => false
  | output => true
  | config => true

/-- What a flag is called in messages: all its spellings. -/
def title : Flag → String
  | help => "-h/--help"
  | output => "--output/-o"
  | config => "--config"

end Flag

namespace Level

/-- How a reader of arguments is called. -/
def name : Level → String
  | program => "teeny"
  | command chosen => "teeny " ++ chosen.name

/-- The spellings of the flags that a reader knows. -/
def spellings : Level → List (String × Flag)
  | program => [("-h", .help), ("--help", .help)]
  | command .compile =>
      [("-h", .help), ("--help", .help), ("--output", .output), ("-o", .output),
        ("--config", .config)]
  | command .run => [("-h", .help), ("--help", .help)]

def flag? (level : Level) (spelling : String) : Option Flag :=
  level.spellings.lookup spelling

end Level

end CommandLine
end TeenyBasic
