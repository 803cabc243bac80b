import Marshal.CommandLine.Basic

/-!
# What the user is told

## Main definitions

* `usage` — how the program is used.
* `versionLine` — which program it is.
* `Refusal.message` — why a command line is refused.
-/

namespace Marshal
namespace CommandLine

/-- The lines that say how the program is used. -/
def usageLines : List String :=
  ["Generate serialization code for annotated types",
    "",
    "Usage: genserialize [OPTIONS] [SOURCES]...",
    "",
    "Arguments:",
    "  [SOURCES]...  Schema descriptions to process",
    "",
    "Options:",
    "  -p, --parse-threads <N>     Analysis threads (0 = one per CPU) [default: 0]",
    "  -g, --generate-threads <N>  Generation threads (0 = one per CPU) [default: 0]",
    "      --plugin-dir <DIR>      Directory scanned for format plugin libraries",
    "      --plugin <PATH>         Format plugin library to load (repeatable)",
    "  -I, --include <DIR>         Extra directory searched for inputs (repeatable)",
    "  -o, --output-dir <DIR>      Write generated headers here instead of next to each source",
    "      --config <PATH>         Config file applied after the global and project configs",
    "      --list-formats          Print registered formats with their priorities and exit",
    "  -v, --verbose               Log debug output",
    "  -h, --help                  Print help",
    "  -V, --version               Print version"]

/-- How the program is used. -/
def usage : String := String.join (usageLines.map (· ++ "\n"))

/-- Which program it is. -/
def versionLine : String := "genserialize 0.2.0\n"

/-- The spelling of the option of a slot. -/
def Slot.spelling : Slot → String
  | .sources => "SOURCES"
  | .parseThreads => "--parse-threads"
  | .generateThreads => "--generate-threads"
  | .pluginDirectory => "--plugin-dir"
  | .plugins => "--plugin"
  | .includePaths => "--include"
  | .outputDirectory => "--output-dir"
  | .configuration => "--config"

/-- The spelling of the option of a switch. -/
def Switch.spelling : Switch → String
  | .listFormats => "--list-formats"
  | .verbose => "--verbose"
  | .help => "--help"
  | .version => "--version"

/-- The spelling of an option. -/
def Choice.spelling : Choice → String
  | .slot s => s.spelling
  | .switch s => s.spelling

/-- Why a command line is refused. -/
def Refusal.message : Refusal → String
  | .unknownOption spelling => s!"unexpected argument {spelling}"
  | .repeated choice => s!"{choice.spelling} cannot be used multiple times"
  | .noValue slot => s!"a value is required for {slot.spelling}"
  | .noNumber slot value => s!"invalid value {value} for {slot.spelling}"
  | .unwantedValue switch => s!"unexpected value for {switch.spelling}"
  | .noSources => "no inputs were given"
  | .help => usage
  | .version => versionLine

end CommandLine
end Marshal
