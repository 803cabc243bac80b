import Marshal.Header.Sink
import Marshal.Run.Partition
import Marshal.Schema.Session
import Marshal.Schema.Store

/-!
# A run over schema files

Inputs are analysed, the types of all of them linked, and the code for each source file handed to
a sink, in the order of the source files.  Both the analysis and the generation are shared out
among workers, each of which has a session of its own; the shares are put together in order, so
the number of workers makes no difference.

What goes wrong with one file keeps no other from being dealt with.  There is no report only if
there are no inputs, or if the workers for one of the halves cannot be started.

## Main definitions

* `Report` — what a run did.
* `analyses`, `collect` — the first half.
* `handOver`, `generateAll` — the second half.
* `runOn`, `run` — a whole run.
-/

namespace Marshal
namespace Run

open Schema Header Plugin

/-- What a run did. -/
structure Report where
  /-- The number of inputs that were analysed. -/
  analyzed : Nat
  /-- The inputs that were not. -/
  analysisFailures : List (FilePath × AnalysisFault)
  /-- What linking came to. -/
  link : LinkReport
  /-- Where code went, in the order of the source files. -/
  written : List FilePath
  /-- The source files whose code went nowhere. -/
  writeFailures : List (FilePath × WriteFault)
  /-- What could not be generated. -/
  issues : List Issue
  deriving Repr, Inhabited

/-- Whether an input was not analysed or code went nowhere.  Issues are not fatal. -/
def Report.isFatal (r : Report) : Bool := !r.analysisFailures.isEmpty || !r.writeFailures.isEmpty

/-- The numbers of workers of both halves. -/
structure Team where
  /-- The workers that analyse. -/
  analyzers : Nat
  /-- The workers that generate. -/
  generators : Nat
  deriving DecidableEq, Repr, Inhabited

/-! ### Analysis -/

/-- What the analysis of each input came to. -/
abbrev Analyses := List (FilePath × Except AnalysisFault Analysis)

/-- The analyses of all inputs; each worker has a session of its own. -/
def analyses (f : Frontend) (workers : Nat) (inputs : List FilePath) : Analyses :=
  (shares workers inputs).flatMap (Session.analyzeAll f Session.new)

/-- The types of all inputs that were analysed, in order. -/
def collect (results : Analyses) : Store :=
  results.foldl (fun store result => match result.2 with
    | .ok a => store.merge a
    | .error _ => store) .empty

/-- The inputs that were not analysed. -/
def failures (results : Analyses) : List (FilePath × AnalysisFault) :=
  results.filterMap fun (path, result) => match result with
    | .ok _ => none
    | .error fault => some (path, fault)

/-! ### Generation -/

/-- The source files with types, in order. -/
def liveTrees (store : Store) : List Tree := store.trees.filter fun t => !t.ids.isEmpty

/-- What became of the code for a source file. -/
structure Delivery where
  /-- The source file. -/
  source : FilePath
  /-- Where its code went. -/
  written : Except WriteFault FilePath
  /-- What could not be generated. -/
  issues : List Issue
  deriving Repr

/-- Generate the code for one source file and hand it over. -/
def handOver {σ : Type} (r : Registry) (g : Graph) (sink : Sink σ) (s : σ) (t : Tree) :
    σ × Delivery :=
  let code := generate r g t.ids
  let (s, written) := sink.write s t.source code
  (s, ⟨t.source, written, code.issues⟩)

/-- One worker: source file after source file. -/
def handOverAll {σ : Type} (r : Registry) (g : Graph) (sink : Sink σ) :
    σ → List Tree → σ × List Delivery
  | s, [] => (s, [])
  | s, t :: ts =>
      let (s, first) := handOver r g sink s t
      let (s, rest) := handOverAll r g sink s ts
      (s, first :: rest)

/-- All workers. -/
def generateAll {σ : Type} (r : Registry) (g : Graph) (sink : Sink σ) (s : σ)
    (shared : List (List Tree)) : σ × List Delivery :=
  shared.foldl (fun (s, before) share =>
    let (s, after) := handOverAll r g sink s share
    (s, before ++ after)) (s, [])

/-! ### A whole run -/

/-- The halves of a run, each of which has workers of its own. -/
inductive Half where
  /-- The inputs are analysed. -/
  | analysis
  /-- Code is generated and handed over. -/
  | generation
  deriving DecidableEq, Repr, Inhabited

/-- What keeps a number of workers for one half from being started, if anything does. -/
abbrev Obstacle := Half → Nat → Option String

/-- Why there is no report. -/
inductive RunFault where
  /-- There are no inputs. -/
  | noInputs
  /-- Workers cannot be started. -/
  | noWorkers (cause : String)
  deriving DecidableEq, Repr, Inhabited

/-- The wording of why there is no report. -/
def RunFault.message : RunFault → String
  | .noInputs => "no input files"
  | .noWorkers cause => s!"failed to start worker threads: {cause}"

/-- Start the workers for one half. -/
def startWorkers (obstacle : Obstacle) (half : Half) (count : Nat) : Except RunFault Unit :=
  match obstacle half count with
  | none => .ok ()
  | some cause => .error (.noWorkers cause)

/-- The report on both halves of a run. -/
def Report.of (results : Analyses) (link : LinkReport) (deliveries : List Delivery) : Report where
  analyzed := (results.filter fun result => result.2.isOk).length
  analysisFailures := failures results
  link := link
  written := deliveries.filterMap fun d => d.written.toOption
  writeFailures := deliveries.filterMap fun d => match d.written with
    | .ok _ => none
    | .error fault => some (d.source, fault)
  issues := deliveries.flatMap Delivery.issues

/-- A whole run, where starting workers may meet an obstacle.  The workers for each half are started
before it, and nothing is handed over before those of the second half are there. -/
def runOn {σ : Type} (obstacle : Obstacle) (r : Registry) (f : Frontend) (sink : Sink σ)
    (team : Team) (s : σ) (inputs : List FilePath) : Except RunFault (Report × σ) :=
  if inputs.isEmpty then .error .noInputs
  else do
    startWorkers obstacle .analysis team.analyzers
    let results := analyses f team.analyzers inputs
    let (store, link) := (collect results).link
    startWorkers obstacle .generation team.generators
    let (s, deliveries) :=
      generateAll r store.graph sink s (shares team.generators (liveTrees store))
    return (.of results link deliveries, s)

/-- A whole run, where all workers can be started. -/
def run {σ : Type} (r : Registry) (f : Frontend) (sink : Sink σ) (team : Team) (s : σ)
    (inputs : List FilePath) : Except RunFault (Report × σ) :=
  runOn (fun _ _ => none) r f sink team s inputs

end Run
end Marshal
