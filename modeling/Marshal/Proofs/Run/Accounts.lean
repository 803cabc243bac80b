import Marshal.Proofs.Data.Gives
import Marshal.Proofs.Run.Inputs
import Marshal.Proofs.Schema.Contents
import Marshal.Run.Program

/-!
# What a run accounts for

Each input of a run is either counted as analysed or listed with what was wrong with it, and there
is one delivery for each source file that has types, in the order of their paths.  So what went
wrong with one file is on record once, and makes no difference to any other: without the inputs
that could not be analysed, the same is generated from the same store.

The program succeeds if it can be set up and nothing is on record.  What plugins could be loaded,
and what could not be generated, has no part in this.

## Main definitions

* `failure?`, `usable` — the inputs that can be analysed, and what is wrong with the others.
* `MayDeliver` — what may become of the code for a source file.
* `SetUp` — the program can be set up.

## Main results

* `ParallelRun.deliveries` — one delivery for each source file with types.
* `exists_liveTree_iff` — which source files have types.
* `ParallelRun.exists_of_analysed_eq`, `runOn_usable` — inputs that cannot be analysed make no difference.
* `programOn_of_setUp`, `programOn_of_not_setUp` — the two ways in which the program ends.
* `run_accounts` — all of this.
-/

namespace Marshal

/-! ### Command lines -/

namespace CommandLine

/-- A command line that asks for work names an input. -/
theorem sources_ne_nil {args : List String} {i : Invocation} (h : parse args = .ok i)
    (hlist : i.listFormats = false) : i.sources ≠ [] := by
  obtain ⟨p, -, h⟩ := bind_eq_ok.1 h
  obtain ⟨q, -, h⟩ := bind_eq_ok.1 h
  intro hnone
  dsimp only at h
  split at h
  · exact throw_ne_ok _ _ h
  · rename_i hsources
    obtain rfl : q.invocation = i := Except.ok.inj h
    simp [hnone, hlist] at hsources

end CommandLine

namespace Run

open Schema Header Plugin CommandLine

/-! ### Counting -/

/-- If everything goes into one of two lists, their lengths add up. -/
theorem length_filterMap_add_length_filterMap {α β γ : Type} {p : α → Option β} {q : α → Option γ}
    (h : ∀ a, (p a).isNone = (q a).isSome) (as : List α) :
    (as.filterMap p).length + (as.filterMap q).length = as.length := by
  rw [List.length_filterMap_eq_countP, List.length_filterMap_eq_countP,
    List.length_eq_countP_add_countP fun a => (p a).isSome]
  congr 1
  refine List.countP_congr fun a _ => ?_
  simp [← h a]

/-! ### Inputs -/

/-- What is wrong with an input, if it cannot be analysed. -/
def failure? (f : Frontend) (path : FilePath) : Option (FilePath × AnalysisFault) :=
  match (Session.new.analyze f path).2 with
  | .ok _ => none
  | .error fault => some (path, fault)

/-- The inputs that can be analysed. -/
def usable (f : Frontend) (inputs : List FilePath) : List FilePath :=
  inputs.filter fun path => (failure? f path).isNone

theorem failures_alone (f : Frontend) (inputs : List FilePath) :
    failures (inputs.map (alone f)) = inputs.filterMap (failure? f) := by
  rw [failures, List.filterMap_map]
  rfl

theorem analysed_eq (f : Frontend) (inputs : List FilePath) :
    analysed f inputs = inputs.filterMap fun path => (Session.new.analyze f path).2.toOption := by
  rw [analysed, List.filterMap_map]
  rfl

theorem isNone_failure? (f : Frontend) (path : FilePath) :
    (failure? f path).isNone = (Session.new.analyze f path).2.toOption.isSome := by
  unfold failure?
  cases (Session.new.analyze f path).2 <;> rfl

/-- An input is analysed, or something is wrong with it. -/
theorem length_analysed_add (f : Frontend) (inputs : List FilePath) :
    (analysed f inputs).length + (inputs.filterMap (failure? f)).length = inputs.length := by
  rw [analysed_eq, Nat.add_comm]
  exact length_filterMap_add_length_filterMap (isNone_failure? f) inputs

/-- Nothing is analysed of the inputs that are not usable. -/
theorem analysed_usable (f : Frontend) (inputs : List FilePath) :
    analysed f (usable f inputs) = analysed f inputs := by
  rw [analysed_eq, analysed_eq, usable, List.filterMap_filter]
  refine List.filterMap_congr fun path _ => ?_
  rw [isNone_failure?]
  cases (Session.new.analyze f path).2 <;> rfl

/-- Nothing is wrong with the inputs that are. -/
theorem filterMap_failure?_usable (f : Frontend) (inputs : List FilePath) :
    (usable f inputs).filterMap (failure? f) = [] := by
  refine List.filterMap_eq_nil_iff.2 fun path hpath => ?_
  exact Option.isNone_iff_eq_none.1 (List.mem_filter.1 hpath).2

/-! ### Source files -/

/-- **Which source files have types**: those that some analysis gives types of. -/
theorem exists_liveTree_iff (as : List Analysis) (source : FilePath) :
    (∃ t ∈ liveTrees (mergeAll as).link.1, t.source.same source = true) ↔
      ∃ a ∈ as, a.source.same source = true ∧ a.tree ≠ [] := by
  rw [liveTrees, trees_link]
  constructor
  · rintro ⟨t, ht, hsource⟩
    obtain ⟨ht, hlive⟩ := List.mem_filter.1 ht
    -- what is in the tree was put in for some analysis of its path
    have htree := treeOf?_of_mem (ordered_mergeAll as) ht
    rw [treeOf?_mergeAll, Option.map_eq_some_iff] at htree
    obtain ⟨first, -, htree⟩ := htree
    obtain ⟨id, hid⟩ := List.exists_mem_of_ne_nil t.ids (by simpa using hlive)
    rw [← congrArg Tree.ids htree] at hid
    obtain ⟨u, hu, hid⟩ := List.mem_flatMap.1 hid
    obtain ⟨hu, hsame⟩ := List.mem_filter.1 hu
    obtain ⟨k, hk, rfl⟩ := List.mem_mapIdx.1 hu
    refine ⟨as[k], List.getElem_mem hk, ?_, fun hnone => ?_⟩
    · rw [FilePath.same_congr_left hsame, hsource]
    · simp [hnone] at hid
  · rintro ⟨a, ha, hsource, htypes⟩
    -- the types of an analysis are in the tree of its path, so that tree has some
    obtain ⟨k, hk⟩ := List.mem_iff_getElem?.1 ha
    obtain ⟨t, ht, hsame, hids⟩ := mem_trees_mergeAll hk
    obtain ⟨i, hi⟩ := List.exists_mem_of_ne_nil _ htypes
    refine ⟨t, List.mem_filter.2 ⟨ht, ?_⟩, by rw [FilePath.same_congr_left hsame, hsource]⟩
    simpa using List.ne_nil_of_mem (hids i hi)

/-- What may become of the code for a source file, whatever state the sink is in. -/
def MayDeliver {σ : Type} (r : Registry) (g : Graph) (sink : Sink σ) (t : Tree) (b : Delivery) :
    Prop :=
  ∃ s, b = (handOver r g sink s t).2

/-- What is wrong with a delivery, if it went nowhere. -/
def writeFailure? (b : Delivery) : Option (FilePath × WriteFault) :=
  match b.written with
  | .ok _ => none
  | .error fault => some (b.source, fault)

/-- A delivery went somewhere, or something is wrong with it. -/
theorem length_written_add (bs : List Delivery) :
    (bs.filterMap fun b => b.written.toOption).length + (bs.filterMap writeFailure?).length =
      bs.length := by
  refine length_filterMap_add_length_filterMap (fun b => ?_) bs
  unfold writeFailure?
  cases b.written <;> rfl

/-! ### Runs -/

/-- The report on a run over some inputs. -/
theorem Report.of_alone (f : Frontend) (inputs : List FilePath) (link : LinkReport)
    (bs : List Delivery) :
    Report.of (inputs.map (alone f)) link bs =
      ⟨(analysed f inputs).length, inputs.filterMap (failure? f), link,
        bs.filterMap fun b => b.written.toOption, bs.filterMap writeFailure?,
        bs.flatMap Delivery.issues⟩ := by
  have hanalyzed : ((inputs.map (alone f)).filter fun result => result.2.isOk).length =
      (analysed f inputs).length := by
    rw [analysed, List.length_filterMap_eq_countP, List.countP_eq_length_filter]
    refine congrArg List.length (List.filter_congr fun result _ => ?_)
    cases result.2 <;> rfl
  rw [Report.of, hanalyzed, failures_alone]
  rfl

section

variable {σ : Type} {r : Registry} {f : Frontend} {sink : Sink σ} {team : Team} {s : σ}
  {inputs inputs' : List FilePath} {obstacle : Obstacle}

namespace ParallelRun

theorem report_eq (p : ParallelRun r f sink team s inputs) :
    p.report = ⟨(analysed f inputs).length, inputs.filterMap (failure? f),
      (mergeAll (analysed f inputs)).link.2,
      p.generation.results.filterMap fun b => b.written.toOption,
      p.generation.results.filterMap writeFailure?,
      p.generation.results.flatMap Delivery.issues⟩ := by
  rw [report, p.collect_results, p.analysis_results, Report.of_alone]

/-- **There is one delivery for each source file with types**, in the order of their paths, in
whatever order the workers took their turns. -/
theorem deliveries (p : ParallelRun r f sink team s inputs) :
    List.Forall₂ (MayDeliver r p.store.graph sink) (liveTrees p.store) p.generation.results := by
  have hdeal : ∀ s k t, MayDeliver r p.store.graph sink t
      (handing r p.store.graph sink s k t).2.2 := fun s _ _ => ⟨s, rfl⟩
  have hresults := p.runs_generation.forall₂_results hdeal p.generation_isFinished
  rwa [flatten_shares] at hresults

/-- **Only what could be analysed makes a difference**: where the analyses of other inputs are the
same, the same code may be handed over in the same order. -/
theorem exists_of_analysed_eq (p : ParallelRun r f sink team s inputs) (hinputs' : inputs' ≠ [])
    (h : analysed f inputs' = analysed f inputs) :
    ∃ p' : ParallelRun r f sink team s inputs', p'.generation = p.generation ∧
      p'.report = { p.report with analysisFailures := inputs'.filterMap (failure? f) } := by
  -- other workers analyse the other inputs, but the workers that generate do as they did
  obtain ⟨q, -⟩ := exists_parallelRun r f sink team s hinputs'
  have hcollect : collect q.analysis.results = collect p.analysis.results := by
    rw [q.collect_results, p.collect_results, h]
  let p' : ParallelRun r f sink team s inputs' :=
    ⟨hinputs', q.analysis, q.runs_analysis, q.analysis_isFinished, p.generation,
      by rw [hcollect]; exact p.runs_generation, p.generation_isFinished⟩
  refine ⟨p', rfl, ?_⟩
  rw [p'.report_eq, p.report_eq, h]

end ParallelRun

/-- What a run does, by the inputs that could be analysed. -/
theorem runOn_eq (hinputs : inputs ≠ []) :
    runOn obstacle r f sink team s inputs = (do
      startWorkers obstacle .analysis team.analyzers
      startWorkers obstacle .generation team.generators
      let (store, link) := (mergeAll (analysed f inputs)).link
      let (s, bs) := generateAll r store.graph sink s (shares team.generators (liveTrees store))
      return (.of (inputs.map (alone f)) link bs, s)) := by
  have hcollect : collect (inputs.map (alone f)) = mergeAll (analysed f inputs) :=
    collect_eq_mergeAll _
  have hempty : inputs.isEmpty = false := List.isEmpty_eq_false_iff.2 hinputs
  simp only [runOn, hempty, if_neg Bool.false_ne_true, analyses_eq, hcollect]

/-- **Inputs that cannot be analysed make no difference**, but for being on record. -/
theorem runOn_usable (h : usable f inputs ≠ []) :
    runOn obstacle r f sink team s (usable f inputs) =
      (runOn obstacle r f sink team s inputs).map fun done =>
        ({ done.1 with analysisFailures := [] }, done.2) := by
  have hinputs : inputs ≠ [] := fun hnone => h (by rw [hnone]; rfl)
  -- the analyses are the same, so only the lists in the reports are to be compared
  rw [runOn_eq h, runOn_eq hinputs, analysed_usable]
  simp only [Report.of_alone, analysed_usable, filterMap_failure?_usable]
  cases startWorkers obstacle .analysis team.analyzers with
  | error fault => rfl
  | ok _ => cases startWorkers obstacle .generation team.generators <;> rfl

theorem runOn_of_started (hanalyzers : obstacle .analysis team.analyzers = none)
    (hgenerators : obstacle .generation team.generators = none) :
    runOn obstacle r f sink team s inputs = run r f sink team s inputs := by
  simp only [run, runOn, startWorkers, hanalyzers, hgenerators]

/-- If there is a report, the workers for both halves were started. -/
theorem started_of_runOn {done : Report × σ}
    (h : runOn obstacle r f sink team s inputs = .ok done) :
    obstacle .analysis team.analyzers = none ∧ obstacle .generation team.generators = none := by
  have hstarted {half : Half} {count : Nat} (h : startWorkers obstacle half count = .ok ()) :
      obstacle half count = none := by
    unfold startWorkers at h
    split at h
    · assumption
    · cases h
  by_cases hinputs : inputs = []
  · rw [runOn, hinputs] at h
    cases h
  · rw [runOn_eq hinputs] at h
    obtain ⟨⟨⟩, hanalyzers, h⟩ := bind_eq_ok.1 h
    obtain ⟨⟨⟩, hgenerators, -⟩ := bind_eq_ok.1 h
    exact ⟨hstarted hanalyzers, hstarted hgenerators⟩

end

/-! ### The program -/

/-- **The program can be set up** with some settings: the machine says where it is, the settings can
be loaded, what is logged can be taken, and the workers for both halves can be started. -/
structure SetUp (host : Host) (env : Environment) (d : Disk) (i : Invocation) (s : Settings) :
    Prop where
  directory : host.directory = none
  settings : ∃ fromFiles, Settings.load d env.home env.directory i.configuration = .ok fromFiles ∧
    s = i.applyTo fromFiles
  logging : host.logging (Settings.logFilter s.logLevel i.verbose) = none
  analyzers : host.workers .analysis (env.team s).analyzers = none
  generators : host.workers .generation (env.team s).generators = none

theorem status_conclude (report : Report) (after : Disk) :
    (conclude report after).status = 0 ↔
      report.analysisFailures = [] ∧ report.writeFailures = [] := by
  unfold conclude Report.isFatal
  cases report.analysisFailures <;> cases report.writeFailures <;> simp

section

variable {host : Host} {env : Environment} {d : Disk} {args : List String} {i : Invocation}
  {s : Settings}

/-- A program that has its settings, and has been asked for more than a list, deals with the
inputs. -/
theorem programOn_eq {fromFiles : Settings} (hargs : parse args = .ok i)
    (hlist : i.listFormats = false) (hdirectory : host.directory = none)
    (hload : Settings.load d env.home env.directory i.configuration = .ok fromFiles)
    (hlogging : host.logging (Settings.logFilter (i.applyTo fromFiles).logLevel i.verbose) = none) :
    programOn host env d args =
      processInputs host env d (loadPlugins d (i.applyTo fromFiles)) (i.applyTo fromFiles)
        i.sources := by
  simp only [programOn, hargs, perform, hdirectory, hload, hlogging, hlist]
  rfl

/-- **A program that can be set up deals with its inputs**, and says how that went. -/
theorem programOn_of_setUp (hargs : parse args = .ok i) (hlist : i.listFormats = false)
    (h : SetUp host env d i s) :
    ∃ p : ParallelRun (loadPlugins d s) ⟨d, s.includePaths⟩ (.headers s.outputDirectory)
        (env.team s) d i.sources,
      programOn host env d args = conclude p.report p.generation.shared := by
  obtain ⟨fromFiles, hload, rfl⟩ := h.settings
  rw [programOn_eq hargs hlist h.directory hload h.logging]
  obtain ⟨p, hrun⟩ := exists_parallelRun (loadPlugins d (i.applyTo fromFiles))
    ⟨d, (i.applyTo fromFiles).includePaths⟩ (.headers (i.applyTo fromFiles).outputDirectory)
    (env.team (i.applyTo fromFiles)) d (sources_ne_nil hargs hlist)
  refine ⟨p, ?_⟩
  rw [processInputs, runOn_of_started h.analyzers h.generators, hrun]

/-- **A program that cannot be set up gives up** before it has done anything. -/
theorem programOn_of_not_setUp (hargs : parse args = .ok i) (hlist : i.listFormats = false)
    (h : ∀ s, ¬ SetUp host env d i s) :
    ∃ message, programOn host env d args = refuse d message := by
  -- whatever is missing, it is missed before anything is written, in this order
  cases hdirectory : host.directory with
  | some cause => exact ⟨_, by simp only [programOn, hargs, perform, hdirectory]; rfl⟩
  | none =>
    cases hload : Settings.load d env.home env.directory i.configuration with
    | error fault => exact ⟨_, by simp only [programOn, hargs, perform, hdirectory, hload]; rfl⟩
    | ok fromFiles =>
      cases hlogging : host.logging
          (Settings.logFilter (i.applyTo fromFiles).logLevel i.verbose) with
      | some cause =>
        exact ⟨_, by simp only [programOn, hargs, perform, hdirectory, hload, hlogging]; rfl⟩
      | none =>
        rw [programOn_eq hargs hlist hdirectory hload hlogging, processInputs]
        cases hrun : runOn host.workers (loadPlugins d (i.applyTo fromFiles))
            ⟨d, (i.applyTo fromFiles).includePaths⟩ (.headers (i.applyTo fromFiles).outputDirectory)
            (env.team (i.applyTo fromFiles)) d i.sources with
        | error fault => exact ⟨_, rfl⟩
        | ok done =>
          obtain ⟨hanalyzers, hgenerators⟩ := started_of_runOn hrun
          exact absurd ⟨hdirectory, ⟨fromFiles, hload, rfl⟩, hlogging, hanalyzers, hgenerators⟩ (h _)

end

/-! ### Everything on record -/

/-- **A run accounts for everything once.**  In whatever order its workers take their turns, each
input is counted as analysed or listed with what is wrong with it, in the order of the inputs; and
for each source file with types, in the order of their paths, there is one entry for where its code
went or why it went nowhere.  Without the inputs that cannot be analysed, the same can come of the
run and of its sink, but that they are not listed.  A program that is to deal with inputs gives up
if it cannot be set up; otherwise it succeeds if and only if neither list has an entry, whatever
plugins there are and whatever could not be generated. -/
theorem run_accounts {σ : Type} (r : Registry) (f : Frontend) (sink : Sink σ) (team : Team) (s : σ)
    (inputs : List FilePath) (hinputs : inputs ≠ []) :
    (∃ p : ParallelRun r f sink team s inputs,
      run r f sink team s inputs = .ok (p.report, p.generation.shared)) ∧
    (∀ p : ParallelRun r f sink team s inputs,
      p.report.analyzed + p.report.analysisFailures.length = inputs.length ∧
      p.report.analysisFailures = inputs.filterMap (failure? f) ∧
      Ordered (liveTrees p.store) ∧
      (∀ source, (∃ t ∈ liveTrees p.store, t.source.same source = true) ↔
        ∃ a ∈ analysed f inputs, a.source.same source = true ∧ a.tree ≠ []) ∧
      (∃ bs, List.Forall₂ (MayDeliver r p.store.graph sink) (liveTrees p.store) bs ∧
        p.report.written = bs.filterMap (fun b => b.written.toOption) ∧
        p.report.writeFailures = bs.filterMap writeFailure? ∧
        p.report.issues = bs.flatMap Delivery.issues) ∧
      p.report.written.length + p.report.writeFailures.length = (liveTrees p.store).length) ∧
    (usable f inputs ≠ [] →
      (∀ p : ParallelRun r f sink team s inputs,
        ∃ p' : ParallelRun r f sink team s (usable f inputs),
          p'.report = { p.report with analysisFailures := [] } ∧ p'.generation = p.generation) ∧
      (∀ p' : ParallelRun r f sink team s (usable f inputs),
        ∃ p : ParallelRun r f sink team s inputs,
          p'.report = { p.report with analysisFailures := [] } ∧ p'.generation = p.generation) ∧
      ∀ obstacle, runOn obstacle r f sink team s (usable f inputs) =
        (runOn obstacle r f sink team s inputs).map fun done =>
          ({ done.1 with analysisFailures := [] }, done.2)) ∧
    ∀ (host : Host) (env : Environment) (d : Disk) (args : List String) (i : Invocation),
      parse args = .ok i → i.listFormats = false →
      (∀ settings, SetUp host env d i settings →
        let Runs := ParallelRun (loadPlugins d settings) ⟨d, settings.includePaths⟩
          (.headers settings.outputDirectory) (env.team settings) d i.sources
        (∃ p : Runs, programOn host env d args = conclude p.report p.generation.shared) ∧
        ∀ p : Runs, (conclude p.report p.generation.shared).status = 0 ↔
          p.report.analysisFailures = [] ∧ p.report.writeFailures = []) ∧
      ((∀ settings, ¬ SetUp host env d i settings) → (programOn host env d args).status = 1) := by
  refine ⟨exists_parallelRun r f sink team s hinputs, fun p => ?_, fun husable => ⟨fun p => ?_,
    fun p' => ?_, fun obstacle => runOn_usable husable⟩, fun host env d args i hargs hlist =>
    ⟨fun settings hsetUp => ⟨programOn_of_setUp hargs hlist hsetUp, fun p => status_conclude _ _⟩,
    fun hsetUp => ?_⟩⟩
  · have hlive := exists_liveTree_iff (analysed f inputs)
    rw [← p.store_eq] at hlive
    have hlength : p.report.written.length + p.report.writeFailures.length =
        (liveTrees p.store).length := by
      rw [p.report_eq, p.deliveries.length_eq]
      exact length_written_add _
    refine ⟨?_, ?_, ordered_liveTrees _, hlive, ⟨_, p.deliveries, ?_, ?_, ?_⟩, hlength⟩
    · rw [p.report_eq]
      exact length_analysed_add f inputs
    all_goals rw [p.report_eq]
  · obtain ⟨p', hgeneration, hreport⟩ := p.exists_of_analysed_eq husable (analysed_usable f inputs)
    rw [filterMap_failure?_usable] at hreport
    exact ⟨p', hreport, hgeneration⟩
  · obtain ⟨p, hgeneration, -⟩ := p'.exists_of_analysed_eq hinputs (analysed_usable f inputs).symm
    refine ⟨p, ?_, hgeneration.symm⟩
    rw [p'.report_eq, p.report_eq, hgeneration, analysed_usable, filterMap_failure?_usable]
  · obtain ⟨message, hrefused⟩ := programOn_of_not_setUp hargs hlist hsetUp
    rw [hrefused]
    rfl

/-- A disk with two descriptions of one source file, one of a source file without types, and one of a
source file whose header cannot be written. -/
def shelf : Disk where
  entries := [(["Box.json"], .file (.text (.ofText
      "\x7b\"types\": [\x7b\"name\": \"Box\", \"formats\": [\"JSON\", \"YAML\"]\x7d]\x7d"))),
    (["Lid.json"], .file (.text (.ofText
      "\x7b\"source\": \"Box.h\", \"types\": [\x7b\"name\": \"Lid\"\x7d]\x7d"))),
    (["Bare.json"], .file (.text (.ofText "\x7b\"types\": []\x7d"))),
    (["Ring.json"], .file (.text (.ofText "\x7b\"types\": [\x7b\"name\": \"Ring\"\x7d]\x7d"))),
    (["generated", "Ring.generated.h"], .directory),
    (["notes.txt"], .file (.text (.ofText "nothing")))]
  here := []

def shelfInputs : List FilePath :=
  [⟨"Lost.json"⟩, ⟨"Box.json"⟩, ⟨"Ring.json"⟩, ⟨"notes.txt"⟩, ⟨"Bare.json"⟩, ⟨"Lid.json"⟩]

/-- A command line that names both descriptions of a source file, one of whose types asks for a
format that no plugin is for. -/
def shelfInvocation : Invocation :=
  { Invocation.empty with sources := [⟨"Box.json"⟩, ⟨"Lid.json"⟩] }

/-- Where the command line is given. -/
def shelfEnvironment : Environment := ⟨⟨none, none⟩, ⟨"/"⟩, 2⟩

/-- A machine that cannot say which directory that is. -/
def lostHost : Host := ⟨some "it is gone", fun _ => none, fun _ _ => none⟩

theorem run_accounts_shelf :
    shelfInputs ≠ [] ∧ usable ⟨shelf, []⟩ shelfInputs ≠ [] ∧
    (∃ p : ParallelRun .builtin ⟨shelf, []⟩ (.headers none) ⟨2, 3⟩ shelf shelfInputs,
      p.report.analyzed + p.report.analysisFailures.length = 6 ∧
      p.report.analysisFailures.map Prod.fst = [⟨"Lost.json"⟩, ⟨"notes.txt"⟩] ∧
      p.report.written.length + p.report.writeFailures.length = 2 ∧
      ∃ p' : ParallelRun .builtin ⟨shelf, []⟩ (.headers none) ⟨2, 3⟩ shelf
          (usable ⟨shelf, []⟩ shelfInputs),
        p'.report = { p.report with analysisFailures := [] }) ∧
    parse ["Box.json", "Lid.json"] = .ok shelfInvocation ∧ shelfInvocation.listFormats = false ∧
    SetUp .ready shelfEnvironment shelf shelfInvocation .unset ∧
    (programOn .ready shelfEnvironment shelf ["Box.json", "Lid.json"]).status = 0 ∧
    (∃ p : ParallelRun (loadPlugins shelf .unset) ⟨shelf, []⟩ (.headers none) ⟨2, 2⟩ shelf
        shelfInvocation.sources, p.report.analysisFailures = [] ∧ p.report.writeFailures = []) ∧
    (∀ settings, ¬ SetUp lostHost shelfEnvironment shelf shelfInvocation settings) ∧
    (programOn lostHost shelfEnvironment shelf ["Box.json", "Lid.json"]).status = 1 := by
  have hinputs : shelfInputs ≠ [] := by decide
  have husable : usable ⟨shelf, []⟩ shelfInputs ≠ [] := by decide +kernel
  have hargs : parse ["Box.json", "Lid.json"] = .ok shelfInvocation := by rfl
  have hload : Settings.load shelf ⟨none, none⟩ ⟨"/"⟩ none = .ok .unset := by rfl
  have hsetUp : SetUp .ready shelfEnvironment shelf shelfInvocation .unset :=
    ⟨rfl, ⟨.unset, hload, rfl⟩, rfl, rfl, rfl⟩
  have hlost : ∀ settings, ¬ SetUp lostHost shelfEnvironment shelf shelfInvocation settings :=
    fun _ h => absurd h.directory (Option.some_ne_none _)
  have hstatus : (programOn .ready shelfEnvironment shelf ["Box.json", "Lid.json"]).status = 0 := by
    decide +kernel
  obtain ⟨⟨p, -⟩, hrun, hdropped, hprogram⟩ := run_accounts .builtin ⟨shelf, []⟩ (.headers none)
    ⟨2, 3⟩ shelf shelfInputs hinputs
  obtain ⟨hlength, hfailures, -, -, -, hwritten⟩ := hrun p
  obtain ⟨p', hreport, -⟩ := (hdropped husable).1 p
  obtain ⟨⟨q, hq⟩, hzero⟩ := (hprogram _ _ _ _ _ hargs rfl).1 _ hsetUp
  refine ⟨hinputs, husable, ⟨p, hlength, ?_, hwritten.trans ?_, p', hreport⟩, hargs, rfl, hsetUp,
    hstatus, ⟨q, (hzero q).1 (hq ▸ hstatus)⟩, hlost, (hprogram _ _ _ _ _ hargs rfl).2 hlost⟩
  · rw [hfailures]
    decide +kernel
  · rw [p.store_eq]
    decide +kernel

end Run
end Marshal
