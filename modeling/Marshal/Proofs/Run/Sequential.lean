import Marshal.Proofs.Run.Crew
import Marshal.Proofs.Run.Shares
import Marshal.Proofs.Schema.Merged
import Marshal.Run.Pipeline

/-!
# The number of workers makes no difference

A run is compared with one that has no workers: every input is analysed in a session of its own,
what could be analysed is merged in order and linked once, and the code for each source file with
types is handed over in the order of the source files.  With workers, both halves of a run are
crews, whose workers take turns in any order; a session is used for all inputs of a worker.

A sink is **steady** if where code goes depends only on the code and its source file.

## Main definitions

* `plainRun` — the run without workers.
* `Sink.Steady` — a sink whose answers depend on what is handed over alone.
* `ParallelRun` — a run whose workers take turns in any order.

## Main results

* `analyze_session` — what a session was used for before makes no difference.
* `collect_eq_mergeAll` — the store of a run.
* `report_eq_plainRun` — however the workers take turns, the report is that of the run without
  them, and so is the code that is handed over.
-/

namespace Marshal
namespace Run

open Schema Header Plugin

/-! ### Without workers -/

/-- What the analysis of an input comes to in a session of its own. -/
def alone (f : Frontend) (path : FilePath) : FilePath × Except AnalysisFault Analysis :=
  (path, (Session.new.analyze f path).2)

/-- The run without workers: the report, and the code that is handed over; `answer` says where code
goes. -/
def plainRun (r : Registry) (f : Frontend)
    (answer : FilePath → FileCode → Except WriteFault FilePath) (inputs : List FilePath) :
    Except RunFault (Report × List (FilePath × FileCode)) :=
  if inputs = [] then .error .noInputs
  else
    let results := inputs.map (alone f)
    let (store, link) := (collect results).link
    let codes := (liveTrees store).map fun t => (t.source, generate r store.graph t.ids)
    let deliveries := codes.map fun (source, code) => ⟨source, answer source code, code.issues⟩
    .ok (.of results link deliveries, codes)

/-! ### Sessions -/

/-- **What a session was used for before makes no difference.** -/
theorem analyze_session (f : Frontend) (session : Session) (path : FilePath) :
    (session.analyze f path).2 = (Session.new.analyze f path).2 := by
  unfold Session.analyze
  cases f.locate? path with
  | none => rfl
  | some place => rfl

theorem analyzeAll_eq (f : Frontend) (session : Session) (paths : List FilePath) :
    Session.analyzeAll f session paths = paths.map (alone f) := by
  induction paths generalizing session with
  | nil => rfl
  | cons path paths ih =>
    show (path, (session.analyze f path).2) :: Session.analyzeAll f (session.analyze f path).1 paths =
      (path, (Session.new.analyze f path).2) :: paths.map (alone f)
    rw [ih, analyze_session]

/-- **The analyses of all inputs** are those of each input alone. -/
theorem analyses_eq (f : Frontend) (workers : Nat) (inputs : List FilePath) :
    analyses f workers inputs = inputs.map (alone f) := by
  have hall : Session.analyzeAll f Session.new = List.map (alone f) :=
    funext (analyzeAll_eq f Session.new)
  rw [analyses, hall, List.flatMap_def, ← List.map_flatten, flatten_shares]

/-! ### Source files -/

/-- The store of a run holds what could be analysed, merged in order. -/
theorem collect_eq_mergeAll (results : Analyses) :
    collect results = mergeAll (results.filterMap (·.2.toOption)) := by
  unfold collect mergeAll
  rw [List.foldl_filterMap]
  congr 1
  funext store result
  obtain ⟨path, a | fault⟩ := result <;> rfl

/-- **The source files with types come in the order of their paths**, each once. -/
theorem ordered_liveTrees (results : Analyses) :
    Ordered (liveTrees (collect results).link.1) := by
  rw [liveTrees, trees_link, collect_eq_mergeAll]
  exact (ordered_mergeAll _).filter _

/-! ### Sinks -/

/-- A sink whose answers depend on what is handed over alone. -/
def Sink.Steady {σ : Type} (sink : Sink σ)
    (answer : FilePath → FileCode → Except WriteFault FilePath) : Prop :=
  ∀ s source code, (sink.write s source code).2 = answer source code

section

variable {σ : Type} (r : Registry) (g : Graph) (sink : Sink σ)

/-- What becomes of the code for a source file. -/
def delivery (answer : FilePath → FileCode → Except WriteFault FilePath) (t : Tree) : Delivery :=
  let code := generate r g t.ids
  ⟨t.source, answer t.source code, code.issues⟩

variable {sink} {answer : FilePath → FileCode → Except WriteFault FilePath}

theorem handOver_of_steady (h : Sink.Steady sink answer) (s : σ) (t : Tree) :
    (handOver r g sink s t).2 = delivery r g answer t := by
  show Delivery.mk t.source (sink.write s t.source (generate r g t.ids)).2 _ = _
  rw [h]
  rfl

end

/-! ### With workers -/

/-- Analyse an input in the session that a worker keeps to itself. -/
def analysing (f : Frontend) :
    Crew.Deal Unit Session FilePath (FilePath × Except AnalysisFault Analysis) :=
  fun _ session path => let (session, result) := session.analyze f path
    ((), session, (path, result))

/-- Hand the code for a source file over to the sink that the workers share. -/
def handing {σ : Type} (r : Registry) (g : Graph) (sink : Sink σ) : Crew.Deal σ Unit Tree Delivery :=
  fun s _ t => let (s, delivery) := handOver r g sink s t
    (s, (), delivery)

/-- A run whose workers take turns in any order, in both of its halves. -/
structure ParallelRun {σ : Type} (r : Registry) (f : Frontend) (sink : Sink σ) (team : Team) (s : σ)
    (inputs : List FilePath) where
  /-- There is something to do. -/
  hasInputs : inputs ≠ []
  /-- The workers that analyse, when they are done. -/
  analysis : Crew Unit Session FilePath (FilePath × Except AnalysisFault Analysis)
  runs_analysis : Crew.Runs (analysing f)
    (.start () Session.new (shares team.analyzers inputs)) analysis
  analysis_isFinished : analysis.IsFinished
  /-- The workers that generate, when they are done. -/
  generation : Crew σ Unit Tree Delivery
  runs_generation : Crew.Runs (handing r (collect analysis.results).link.1.graph sink)
    (.start s () (shares team.generators (liveTrees (collect analysis.results).link.1))) generation
  generation_isFinished : generation.IsFinished

section

variable {σ : Type} {r : Registry} {f : Frontend} {sink : Sink σ} {team : Team} {s : σ}
  {inputs : List FilePath} {answer : FilePath → FileCode → Except WriteFault FilePath}

/-- The report of a run. -/
def ParallelRun.report (p : ParallelRun r f sink team s inputs) : Report :=
  .of p.analysis.results (collect p.analysis.results).link.2 p.generation.results

/-- The code that was handed over, in the order in which that happened. -/
def ParallelRun.codes (p : ParallelRun r f sink team s inputs) : List (FilePath × FileCode) :=
  let graph := (collect p.analysis.results).link.1.graph
  p.generation.taken.map fun t => (t.source, generate r graph t.ids)

/-- However the workers take turns, the analyses are those of each input alone. -/
theorem ParallelRun.analysis_results (p : ParallelRun r f sink team s inputs) :
    p.analysis.results = inputs.map (alone f) := by
  have halone : ∀ s session path, (analysing f s session path).2.2 = alone f path :=
    fun _ session path => congrArg (Prod.mk path) (analyze_session f session path)
  rw [(p.runs_analysis.results halone p.analysis_isFinished).1, flatten_shares]

theorem ParallelRun.generation_results (h : Sink.Steady sink answer)
    (p : ParallelRun r f sink team s inputs) :
    let store := (collect p.analysis.results).link.1
    p.generation.results = (liveTrees store).map (delivery r store.graph answer) ∧
      p.generation.taken.Perm (liveTrees store) := by
  intro store
  have hsteady : ∀ s k t, (handing r store.graph sink s k t).2.2 = delivery r store.graph answer t :=
    fun s _ t => handOver_of_steady r store.graph h s t
  have hresults := p.runs_generation.results hsteady p.generation_isFinished
  rwa [flatten_shares] at hresults

/-- **However the workers take turns**, the report is that of the run without them, and so is the
code that is handed over. -/
theorem ParallelRun.plainRun_eq (h : Sink.Steady sink answer)
    (p : ParallelRun r f sink team s inputs) :
    ∃ codes, plainRun r f answer inputs = .ok (p.report, codes) ∧ p.codes.Perm codes := by
  obtain ⟨hresults, htaken⟩ := p.generation_results h
  refine ⟨_, ?_, htaken.map _⟩
  rw [plainRun, if_neg p.hasInputs, ← p.analysis_results, ParallelRun.report, hresults]
  simp only [List.map_map]
  rfl

theorem dealAll_handing (r : Registry) (g : Graph) (sink : Sink σ) (s : σ) (ts : List Tree) :
    (Crew.dealAll (handing r g sink) s () ts).1 = (handOverAll r g sink s ts).1 ∧
      (Crew.dealAll (handing r g sink) s () ts).2.2 = (handOverAll r g sink s ts).2 := by
  induction ts generalizing s with
  | nil => exact ⟨rfl, rfl⟩
  | cons t ts ih =>
    obtain ⟨hstate, hdone⟩ := ih (handOver r g sink s t).1
    exact ⟨hstate, congrArg ((handOver r g sink s t).2 :: ·) hdone⟩

/-- With workers that take their turns one after the other, all ends as in `generateAll`. -/
theorem inTurn_handing (r : Registry) (g : Graph) (sink : Sink σ) (s : σ)
    (shared : List (List Tree)) :
    (Crew.inTurn (handing r g sink) () s shared).1 = (generateAll r g sink s shared).1 ∧
      (Crew.inTurn (handing r g sink) () s shared).2.flatMap (·.done) =
        (generateAll r g sink s shared).2 := by
  -- the deliveries of the shares before are kept
  have key : ∀ before, shared.foldl (fun p share => ((handOverAll r g sink p.1 share).1,
      p.2 ++ (handOverAll r g sink p.1 share).2)) (s, before) =
      ((Crew.inTurn (handing r g sink) () s shared).1,
        before ++ (Crew.inTurn (handing r g sink) () s shared).2.flatMap (·.done)) := by
    induction shared generalizing s with
    | nil =>
      intro before
      simp [Crew.inTurn]
    | cons share shared ih =>
      intro before
      obtain ⟨hstate, hdone⟩ := dealAll_handing r g sink s share
      rw [List.foldl_cons, ih, ← hstate, ← hdone, List.append_assoc]
      rfl
  have hall : generateAll r g sink s shared = _ := key []
  rw [hall, List.nil_append]
  exact ⟨rfl, rfl⟩

/-- **A run is one whose workers take their turns one after the other.** -/
theorem exists_parallelRun (r : Registry) (f : Frontend) (sink : Sink σ) (team : Team) (s : σ)
    (hinputs : inputs ≠ []) :
    ∃ p : ParallelRun r f sink team s inputs,
      run r f sink team s inputs = .ok (p.report, p.generation.shared) := by
  obtain ⟨analysis, hruns, hfinished, -, -⟩ := Crew.runs_start (analysing f) ()
    Session.new (shares team.analyzers inputs)
  obtain ⟨generation, hruns', hfinished', hshared, hresults⟩ :=
    Crew.runs_start (handing r (collect analysis.results).link.1.graph sink) s ()
      (shares team.generators (liveTrees (collect analysis.results).link.1))
  let p : ParallelRun r f sink team s inputs :=
    ⟨hinputs, analysis, hruns, hfinished, generation, hruns', hfinished'⟩
  refine ⟨p, ?_⟩
  have hanalyses : analyses f team.analyzers inputs = analysis.results := by
    rw [analyses_eq, ← p.analysis_results]
  have hempty : inputs.isEmpty = false := List.isEmpty_eq_false_iff.2 hinputs
  rw [(inTurn_handing r _ sink s _).1] at hshared
  rw [(inTurn_handing r _ sink s _).2] at hresults
  simp only [run, runOn, hempty, hanalyses]
  show Except.ok (Report.of analysis.results _ (generateAll r _ sink s _).2,
    (generateAll r _ sink s _).1) = _
  rw [← hresults, ← hshared]
  rfl

/-! ### The runs compared -/

/-- **The number of workers makes no difference.**  If the answers of a sink depend on what is
handed over alone, a run gives the report of the run without workers, which hands over the code for
the source files in the order of their paths; and however the workers take turns, the report is
that one, and the same code is handed over.  What a session was used for before changes nothing. -/
theorem report_eq_plainRun (r : Registry) (f : Frontend) (sink : Sink σ)
    (answer : FilePath → FileCode → Except WriteFault FilePath) (h : Sink.Steady sink answer)
    (team : Team) (s : σ) (inputs : List FilePath) :
    (run r f sink team s inputs).map Prod.fst = (plainRun r f answer inputs).map Prod.fst ∧
    (∀ report codes, plainRun r f answer inputs = .ok (report, codes) →
      codes.Pairwise fun a b => a.1.compare b.1 = .lt) ∧
    (inputs ≠ [] → ∃ p : ParallelRun r f sink team s inputs,
      run r f sink team s inputs = .ok (p.report, p.generation.shared)) ∧
    (∀ p : ParallelRun r f sink team s inputs, ∃ codes,
      plainRun r f answer inputs = .ok (p.report, codes) ∧ p.codes.Perm codes) ∧
    ∀ session path, (Session.analyze f session path).2 = (Session.new.analyze f path).2 := by
  refine ⟨?_, ?_, exists_parallelRun r f sink team s, ParallelRun.plainRun_eq h, analyze_session f⟩
  · by_cases hinputs : inputs = []
    · subst hinputs
      rfl
    · obtain ⟨p, hrun⟩ := exists_parallelRun r f sink team s hinputs
      obtain ⟨codes, hplain, -⟩ := p.plainRun_eq h
      rw [hrun, hplain]
      rfl
  · intro report codes hplain
    by_cases hinputs : inputs = []
    · rw [plainRun, if_pos hinputs] at hplain
      cases hplain
    · rw [plainRun, if_neg hinputs] at hplain
      obtain ⟨-, rfl⟩ := Prod.mk.inj (Except.ok.inj hplain)
      exact List.pairwise_map.2 (ordered_liveTrees _)

end

/-- A disk with two schema files, which define a type of one source file each in its own way, and a
file of another kind. -/
def shapes : Disk where
  entries := [(["Shapes.json"], .file (.text (.ofText ("\x7b\"types\": [" ++
      "\x7b\"name\": \"Dot\", \"formats\": [\"XML\"]\x7d, \x7b\"name\": \"Line\"\x7d]\x7d")))),
    (["More.json"], .file (.text (.ofText ("\x7b\"source\": \"Shapes.h\", \"types\": [" ++
      "\x7b\"name\": \"Dot\", \"formats\": [\"CSV\"]\x7d]\x7d")))),
    (["notes.txt"], .file (.text (.ofText "nothing")))]
  here := []

/-- A file that is not there, a schema file, a file of another kind, and the other schema file. -/
def shapesInputs : List FilePath :=
  [⟨"Lost.json"⟩, ⟨"Shapes.json"⟩, ⟨"notes.txt"⟩, ⟨"More.json"⟩]

/-- The definitions of the type are merged in the order of the inputs, which is seen from the order
of what cannot be generated for it. -/
theorem report_eq_plainRun_shapes :
    Sink.Steady Sink.memory (fun source _ => .ok source) ∧
    (∀ inputs ∈ [shapesInputs, shapesInputs.reverse],
      (run .builtin ⟨shapes, []⟩ Sink.memory ⟨2, 3⟩ [] inputs).map Prod.fst =
        (plainRun .builtin ⟨shapes, []⟩ (fun source _ => .ok source) inputs).map Prod.fst) ∧
    (run .builtin ⟨shapes, []⟩ Sink.memory ⟨2, 3⟩ [] shapesInputs).toOption.map
      (fun done => (done.1.analyzed, done.1.analysisFailures.length, done.1.written,
        done.1.issues)) =
      some (2, 2, [⟨"Shapes.h"⟩], [.missingPlugin "Dot" "XML", .missingPlugin "Dot" "CSV"]) ∧
    (run .builtin ⟨shapes, []⟩ Sink.memory ⟨2, 3⟩ [] shapesInputs.reverse).toOption.map
      (fun done => done.1.issues) =
      some [.missingPlugin "Dot" "CSV", .missingPlugin "Dot" "XML"] := by
  have hsteady : Sink.Steady Sink.memory (fun source _ => .ok source) := fun _ _ _ => rfl
  refine ⟨hsteady, fun inputs _ => ?_, by decide +kernel, by decide +kernel⟩
  exact (report_eq_plainRun .builtin ⟨shapes, []⟩ Sink.memory _ hsteady ⟨2, 3⟩ [] inputs).1

end Run
end Marshal
