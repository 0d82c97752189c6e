import TeenyBasic.CommandLine.Request

/-!
# Screens

The texts that explain how the program is used.
-/

namespace TeenyBasic
namespace CommandLine

namespace Level

/-- The line that shows how a reader's arguments are written. -/
def usage : Level → String
  | program => "usage: teeny [-h] COMMAND ...\n"
  | command .compile =>
      "usage: teeny compile [-h] [--output OUTPUT] [--config CONFIG] source\n"
  | command .run => "usage: teeny run [-h] source\n"

/-- What is explained below the line on usage. -/
def explanation : Level → List String
  | program =>
      ["Teeny: compile to C or interpret Teeny programs",
        "",
        "positional arguments:",
        "  COMMAND",
        "    compile   Translate a Teeny program into C",
        "    run       Execute a Teeny program",
        "",
        "options:",
        "  -h, --help  show this help message and exit"]
  | command .compile =>
      ["Translate a Teeny source file into a C source file.",
        "",
        "positional arguments:",
        "  source                Teeny source file to compile",
        "",
        "options:",
        "  -h, --help            show this help message and exit",
        "  --output OUTPUT, -o OUTPUT",
        "                        Output path for the generated C code (default: from",
        "                        config, else out/out.c)",
        "  --config CONFIG       Project configuration file (default: .teeny.yaml in",
        "                        the current directory)"]
  | command .run =>
      ["Execute a Teeny source file directly, reading INPUT from the console.",
        "",
        "positional arguments:",
        "  source      Teeny source file to execute",
        "",
        "options:",
        "  -h, --help  show this help message and exit"]

def help (level : Level) : String :=
  level.usage ++ "\n" ++ String.join (level.explanation.map (· ++ "\n"))

end Level

/-- What is said about refused arguments. -/
def Refusal.text (refusal : Refusal) : String :=
  refusal.level.usage ++ refusal.level.name ++ ": error: " ++ refusal.fault.message ++ "\n"

end CommandLine
end TeenyBasic
