import Marshal.Settings.Basic

/-!
# What a command line asks for

The options of the program, what a command line comes to, and why one is refused.

## Main definitions

* `Slot`, `Switch`, `Option` — what can be said on a command line.
* `Invocation` — what a command line comes to.
* `Invocation.settings` — its part of the settings, which is their last layer.
* `Refusal` — why there is no invocation.
-/

namespace Marshal
namespace CommandLine

/-! ### Options -/

/-- What a value can be given for. -/
inductive Slot where
  /-- The inputs, which need no option. -/
  | sources
  /-- The number of workers that analyse. -/
  | parseThreads
  /-- The number of workers that generate. -/
  | generateThreads
  /-- A directory of plugin libraries. -/
  | pluginDirectory
  /-- Plugin libraries. -/
  | plugins
  /-- Further directories in which inputs are looked for. -/
  | includePaths
  /-- The directory of all headers. -/
  | outputDirectory
  /-- A settings file. -/
  | configuration
  deriving DecidableEq, Repr, Inhabited

/-- What can only be turned on. -/
inductive Switch where
  /-- List the formats, and do nothing else. -/
  | listFormats
  /-- Log more. -/
  | verbose
  /-- Show how the program is used. -/
  | help
  /-- Show the version. -/
  | version
  deriving DecidableEq, Repr, Inhabited

/-- An option. -/
inductive Choice where
  /-- An option with a value. -/
  | slot (s : Slot)
  /-- An option without. -/
  | switch (s : Switch)
  deriving DecidableEq, Repr, Inhabited

/-- Whether a slot takes one value for each time its option is given. -/
def Slot.isRepeatable : Slot → Bool
  | .sources | .plugins | .includePaths => true
  | _ => false

/-- The option with a long name. -/
def long? : String → Option Choice
  | "parse-threads" => some (.slot .parseThreads)
  | "generate-threads" => some (.slot .generateThreads)
  | "plugin-dir" => some (.slot .pluginDirectory)
  | "plugin" => some (.slot .plugins)
  | "include" => some (.slot .includePaths)
  | "output-dir" => some (.slot .outputDirectory)
  | "config" => some (.slot .configuration)
  | "list-formats" => some (.switch .listFormats)
  | "verbose" => some (.switch .verbose)
  | "help" => some (.switch .help)
  | "version" => some (.switch .version)
  | _ => none

/-- The option with a short name. -/
def short? : Char → Option Choice
  | 'p' => some (.slot .parseThreads)
  | 'g' => some (.slot .generateThreads)
  | 'I' => some (.slot .includePaths)
  | 'o' => some (.slot .outputDirectory)
  | 'v' => some (.switch .verbose)
  | 'h' => some (.switch .help)
  | 'V' => some (.switch .version)
  | _ => none

/-! ### Invocations -/

/-- What a command line comes to. -/
structure Invocation where
  /-- The inputs. -/
  sources : List FilePath
  /-- The number of workers that analyse. -/
  parseThreads : Nat
  /-- The number of workers that generate. -/
  generateThreads : Nat
  /-- A directory of plugin libraries. -/
  pluginDirectory : Option FilePath
  /-- Plugin libraries. -/
  plugins : List FilePath
  /-- Further directories in which inputs are looked for. -/
  includePaths : List FilePath
  /-- The directory of all headers. -/
  outputDirectory : Option FilePath
  /-- A settings file. -/
  configuration : Option FilePath
  /-- Whether only the formats are listed. -/
  listFormats : Bool
  /-- Whether more is logged. -/
  verbose : Bool
  deriving DecidableEq, Repr, Inhabited

namespace Invocation

/-- An empty command line. -/
def empty : Invocation := ⟨[], 0, 0, none, [], [], none, none, false, false⟩

/-- The layer of settings that was given. -/
def settings (i : Invocation) : Settings :=
  { Settings.unset with
    parseThreads := i.parseThreads
    generateThreads := i.generateThreads
    pluginDirectory := i.pluginDirectory
    pluginPaths := i.plugins
    includePaths := i.includePaths
    outputDirectory := i.outputDirectory }

/-- The settings of a run, given those from files. -/
def applyTo (i : Invocation) (s : Settings) : Settings := s.under i.settings

end Invocation

/-! ### Refusals -/

/-- Why there is no invocation. -/
inductive Refusal where
  /-- There is no such option. -/
  | unknownOption (spelling : String)
  /-- An option that may be given once was given twice. -/
  | repeated (choice : Choice)
  /-- A value is missing or empty. -/
  | noValue (slot : Slot)
  /-- A value is not a number, or too large. -/
  | noNumber (slot : Slot) (value : String)
  /-- An option that has no value was given one. -/
  | unwantedValue (switch : Switch)
  /-- There are no inputs. -/
  | noSources
  /-- The user asked how the program is used. -/
  | help
  /-- The user asked for the version. -/
  | version
  deriving DecidableEq, Repr, Inhabited

/-- The exit status that goes with a refusal; to be shown what was asked for is no failure. -/
def Refusal.status : Refusal → Nat
  | .help | .version => 0
  | _ => 2

end CommandLine
end Marshal
