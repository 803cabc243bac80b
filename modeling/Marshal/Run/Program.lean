import Marshal.CommandLine.Parse
import Marshal.CommandLine.Usage
import Marshal.Plugin.Loader
import Marshal.Run.Pipeline
import Marshal.Settings.Load

/-!
# The program

From a command line, an environment and a disk to an exit status, what is printed, and the disk
afterwards.  The settings come from files and from the command line; then plugins are loaded,
and either the formats are listed or the inputs are dealt with.

## Main definitions

* `Environment`, `Host`, `Outcome` — what goes in and what comes out.
* `loadPlugins` — the plugins of a run.
* `programOn`, `program` — the program.
-/

namespace Marshal
namespace Run

open Schema Header Plugin CommandLine

/-- What the program finds. -/
structure Environment where
  /-- Where the settings of the user are. -/
  home : Settings.Home
  /-- The directory the program is in. -/
  directory : FilePath
  /-- The number of processors. -/
  processors : Nat
  deriving Repr, Inhabited

/-- What the machine may refuse the program before its work begins, and why. -/
structure Host where
  /-- To say which directory the program is in. -/
  directory : Option String
  /-- To take messages, given which of them are logged. -/
  logging : String → Option String
  /-- To start workers. -/
  workers : Obstacle

/-- A machine that refuses nothing. -/
def Host.ready : Host := ⟨none, fun _ => none, fun _ _ => none⟩

/-- What comes of the program. -/
structure Outcome where
  /-- Zero if nothing went wrong. -/
  status : Nat
  /-- What is printed. -/
  output : String
  /-- What is complained about. -/
  complaint : Option String
  /-- The disk afterwards. -/
  disk : Disk

/-- The registry with the plugins that the settings ask for; libraries that cannot be used are
passed over. -/
def loadPlugins (d : Disk) (s : Settings) : Registry :=
  let loader := Loader.new .builtin
  let loader := match s.pluginDirectory with
    | none => loader
    | some directory => (loader.loadDirectory d directory).1
  (s.pluginPaths.foldl (Loader.tryFile d) loader).registry

/-- The formats with their priorities, one on a line. -/
def listFormats (r : Registry) : String :=
  String.join (r.entries.map fun e => s!"{e.name}\t{e.priority}\n")

/-- What is said of a run that went wrong. -/
def summary (r : Report) : String :=
  s!"{r.analysisFailures.length} input(s) failed to analyze, " ++
    s!"{r.writeFailures.length} output(s) failed to write"

/-- The workers for both halves of a run. -/
def Environment.team (env : Environment) (s : Settings) : Team :=
  ⟨workers env.processors s.parseThreads, workers env.processors s.generateThreads⟩

/-- The outcome of a program that gives up before it has done anything. -/
def refuse (d : Disk) (message : String) : Outcome := ⟨1, "", some s!"error: {message}", d⟩

/-- The outcome of a program that has a report on its inputs. -/
def conclude (report : Report) (after : Disk) : Outcome :=
  if report.isFatal then ⟨1, "", some (summary report), after⟩ else ⟨0, "", none, after⟩

/-- Deal with the inputs. -/
def processInputs (host : Host) (env : Environment) (d : Disk) (r : Registry) (s : Settings)
    (sources : List FilePath) : Outcome :=
  match runOn host.workers r ⟨d, s.includePaths⟩ (.headers s.outputDirectory) (env.team s) d
      sources with
  | .error fault => refuse d fault.message
  | .ok (report, after) => conclude report after

/-- Do what was asked for. -/
def perform (host : Host) (env : Environment) (d : Disk) (i : Invocation) : Outcome :=
  match host.directory with
  | some cause => refuse d s!"cannot determine the working directory: {cause}"
  | none =>
      match Settings.load d env.home env.directory i.configuration with
      | .error fault => refuse d fault.message
      | .ok fromFiles =>
          let s := i.applyTo fromFiles
          match host.logging (Settings.logFilter s.logLevel i.verbose) with
          | some cause => refuse d s!"failed to initialize logging: {cause}"
          | none =>
              let registry := loadPlugins d s
              if i.listFormats then ⟨0, listFormats registry, none, d⟩
              else processInputs host env d registry s i.sources

/-- The program, on a machine that may refuse what it needs. -/
def programOn (host : Host) (env : Environment) (d : Disk) (args : List String) : Outcome :=
  match parse args with
  | .error .help => ⟨0, usage, none, d⟩
  | .error .version => ⟨0, versionLine, none, d⟩
  | .error refusal => ⟨refusal.status, "", some s!"error: {refusal.message}", d⟩
  | .ok i => perform host env d i

/-- The program. -/
def program (env : Environment) (d : Disk) (args : List String) : Outcome :=
  programOn .ready env d args

end Run
end Marshal
