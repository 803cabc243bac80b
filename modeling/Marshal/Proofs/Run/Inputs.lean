import Marshal.Proofs.Plugin.Local
import Marshal.Proofs.Run.Sequential
import Marshal.Proofs.Schema.Independent

/-!
# Which inputs make a difference to each other

What a run comes to for a source file depends on the inputs that describe it, and on those whose
types its references are linked to.  So independent inputs can come in any order; and an input that
is unrelated to the others changes nothing for them.  Only the numbers of nodes are others, and of
these neither the report nor any code says anything.

Plugins are taken to be local, as all plugins of a run are (`isLocal_loadPlugins`), and where code
goes to depend on the code and its source file alone.

## Main definitions

* `analysed` — what could be analysed of some inputs.
* `ParallelRun.store` — the store of a run.

## Main results

* `sound_of_mem_analysed` — what could be analysed is sound.
* `coded_move` — code sees no numbers.
* `report_perm` — independent inputs can come in any order.
* `deliveries_unrelated` — an unrelated input changes nothing for the others.
-/

namespace Marshal
namespace Run

open Schema Header Plugin

/-! ### What was analysed -/

/-- What could be analysed of some inputs, in order. -/
def analysed (f : Frontend) (inputs : List FilePath) : List Analysis :=
  (inputs.map (alone f)).filterMap (·.2.toOption)

theorem analysed_append (f : Frontend) (inputs inputs' : List FilePath) :
    analysed f (inputs ++ inputs') = analysed f inputs ++ analysed f inputs' := by
  simp [analysed]

theorem length_analysed_singleton (f : Frontend) (input : FilePath) :
    (analysed f [input]).length ≤ 1 :=
  List.length_filterMap_le _ _

/-- What the analysis of a text gives is sound. -/
theorem sound_of_analyzeText {format : FileFormat} {path : FilePath} {text : String} {a : Analysis}
    (h : analyzeText format path text = .ok a) : a.Sound := by
  unfold analyzeText at h
  cases hd : format.read text with
  | error cause => rw [hd] at h; cases h
  | ok d =>
    rw [hd] at h
    cases ha : d.analyze path with
    | error name => simp [ha, Except.mapError] at h
    | ok a' =>
      obtain rfl : a' = a := by simpa [ha, Except.mapError] using h
      obtain ⟨hnodup, rfl⟩ := (d.analyze_eq_ok_iff path).1 ha
      exact Description.sound_analysis (isRead_of_read hd).isFresh hnodup path

/-- **What could be analysed is sound.** -/
theorem sound_of_mem_analysed {f : Frontend} {inputs : List FilePath} {a : Analysis}
    (h : a ∈ analysed f inputs) : a.Sound := by
  obtain ⟨result, hresult, ha⟩ := List.mem_filterMap.1 h
  obtain ⟨path, -, rfl⟩ := List.mem_map.1 hresult
  have hok : (Session.new.analyze f path).2 = .ok a := by
    cases hs : (Session.new.analyze f path).2 with
    | error fault => simp [alone, hs, Except.toOption] at ha
    | ok b => simpa [alone, hs, Except.toOption] using ha
  unfold Session.analyze at hok
  split at hok
  · cases hok
  · split at hok
    · cases hok
    · split at hok
      · cases hok
      · exact sound_of_analyzeText hok

/-! ### Code -/

/-- The code for a source file. -/
def coded (r : Registry) (g : Graph) (t : Tree) : FilePath × FileCode :=
  (t.source, generate r g t.ids)

/-- What becomes of the code for a source file. -/
def deliver (answer : FilePath → FileCode → Except WriteFault FilePath)
    (c : FilePath × FileCode) : Delivery :=
  ⟨c.1, answer c.1 c.2, c.2.issues⟩

section

variable {r : Registry} {move : NodeId → NodeId} {kept : FilePath → Bool} {known : String → Prop}
  {s t : Store}

/-- **Code sees no numbers.** -/
theorem coded_move (hr : r.IsLocal) (he : s.Embeds move kept known t) (hs : s.Sound) (ht : t.Sound)
    {u : Tree} (hu : u ∈ s.trees) : coded r t.graph (u.move move) = coded r s.graph u :=
  congrArg (Prod.mk u.source)
    (generate_map hr he.graph hs.closed ht.closed fun id hid => hs.tree_lt u hu id hid)

/-- The code for the source files that are kept is the same in a larger store. -/
theorem filter_coded_liveTrees (hr : r.IsLocal) (he : s.Embeds move kept known t) (hs : s.Sound)
    (ht : t.Sound) :
    ((liveTrees t).map (coded r t.graph)).filter (kept ·.1) =
      (liveTrees s).map (coded r s.graph) := by
  have htrees : (liveTrees t).filter (kept ·.source) = (liveTrees s).map (Tree.move move) := by
    -- the trees that are kept are the smaller store's, whether they hold types or not
    rw [liveTrees, List.filter_filter, List.filter_congr fun u _ => Bool.and_comm _ _,
      ← List.filter_filter]
    show (treesOf kept t.trees).filter _ = _
    rw [he.trees, liveTrees, List.filter_map]
    refine congrArg _ (List.filter_congr fun u _ => ?_)
    simp [Tree.move]
  rw [List.filter_map]
  show ((liveTrees t).filter (kept ·.source)).map _ = _
  rw [htrees, List.map_map]
  exact List.map_congr_left fun u hu => coded_move hr he hs ht (List.mem_of_mem_filter hu)

end

/-! ### Runs -/

section

variable {σ : Type} {r : Registry} {f : Frontend} {sink : Sink σ} {team team' : Team} {s s' : σ}
  {inputs inputs' : List FilePath} {answer : FilePath → FileCode → Except WriteFault FilePath}

namespace ParallelRun

/-- The store of a run. -/
def store (p : ParallelRun r f sink team s inputs) : Store := (collect p.analysis.results).link.1

variable (p : ParallelRun r f sink team s inputs)

theorem collect_results : collect p.analysis.results = mergeAll (analysed f inputs) := by
  rw [collect_eq_mergeAll, p.analysis_results, analysed]

theorem store_eq : p.store = (mergeAll (analysed f inputs)).link.1 := by
  rw [store, collect_results]

theorem link_eq : p.report.link = (mergeAll (analysed f inputs)).link.2 := by
  rw [← collect_results p]
  rfl

theorem sound_store : p.store.Sound := by
  rw [store_eq]
  exact (sound_mergeAll fun _ => sound_of_mem_analysed).link

theorem size_store : p.store.graph.size = ((analysed f inputs).map (·.graph.size)).sum := by
  rw [store_eq, Store.link_eq, Graph.size_link, size_mergeAll, firstId, List.take_length]

variable {p}

/-- What becomes of the code of a run, by the code itself. -/
theorem results_eq (h : Sink.Steady sink answer) :
    p.generation.results =
      ((liveTrees p.store).map (coded r p.store.graph)).map (deliver answer) := by
  rw [(p.generation_results h).1, List.map_map]
  rfl

theorem codes_perm (h : Sink.Steady sink answer) :
    p.codes.Perm ((liveTrees p.store).map (coded r p.store.graph)) :=
  (p.generation_results h).2.map _

end ParallelRun

/-! ### The order of inputs -/

/-- **Independent inputs can come in any order.**  Let the inputs that could be analysed describe
different source files, and let no two of them declare a type of the same name.  If they come in
another order, then up to the numbers of nodes the store has the same nodes with the same links,
the same trees and the same names; linking reports the same, the same code is handed over for each
source file, and the report is the same but for the order of the inputs that were not analysed. -/
theorem report_perm (hr : r.IsLocal) (hsink : Sink.Steady sink answer) (hperm : inputs.Perm inputs')
    (hind : (analysed f inputs).Pairwise Analysis.Independent)
    (p : ParallelRun r f sink team s inputs) (p' : ParallelRun r f sink team' s' inputs') :
    (∃ move : NodeId → NodeId, Function.Injective move ∧
      p'.store.graph.size = p.store.graph.size ∧
      (∀ a, p'.store.graph.node? (move a) = (p.store.graph.node? a).map (·.mapLinks move)) ∧
      p'.store.trees = p.store.trees.map (Tree.move move) ∧
      ∀ name, p'.store.nodeId? name = (p.store.nodeId? name).map move) ∧
    p'.report.link = p.report.link ∧
    p'.codes.Perm p.codes ∧
    p'.report.written = p.report.written ∧
    p'.report.writeFailures = p.report.writeFailures ∧
    p'.report.issues = p.report.issues ∧
    p'.report.analyzed = p.report.analyzed ∧
    p'.report.analysisFailures.Perm p.report.analysisFailures := by
  have hresults : (inputs'.map (alone f)).Perm (inputs.map (alone f)) := hperm.symm.map _
  have hanalysed : (analysed f inputs).Perm (analysed f inputs') := hresults.symm.filterMap _
  obtain ⟨move, hmove⟩ := Store.exists_renumbers hanalysed Store.sound_empty
    (fun _ => sound_of_mem_analysed) hind
  have hrenumbers : Store.Renumbers move (mergeAll (analysed f inputs))
      (mergeAll (analysed f inputs')) := hmove
  have hnone : treesOf (fun _ => !true) (mergeAll (analysed f inputs')).trees = [] :=
    List.filter_eq_nil_iff.2 fun _ _ => Bool.false_ne_true
  -- no tree is left out, so the reports are the same
  obtain ⟨hlinked, r₁, x, r₂, hlink, hlink', hempty⟩ :=
    hrenumbers.link (fun _ _ _ _ _ _ _ _ => trivial) (by rw [hnone]; exact Nat.zero_le _)
  rw [hempty hnone, LinkReport.empty_append] at hlink'
  have hstore : Store.Renumbers move p.store p'.store := by
    rw [p.store_eq, p'.store_eq]
    exact hlinked
  have hcoded : (liveTrees p'.store).map (coded r p'.store.graph) =
      (liveTrees p.store).map (coded r p.store.graph) :=
    (List.filter_eq_self.2 fun _ _ => rfl).symm.trans
      (filter_coded_liveTrees hr hstore p.sound_store p'.sound_store)
  have hdeliveries : p'.generation.results = p.generation.results := by
    rw [p'.results_eq hsink, p.results_eq hsink, hcoded]
  have hsize : p'.store.graph.size = p.store.graph.size := by
    rw [p.size_store, p'.size_store]
    exact (hanalysed.symm.map _).sum_nat
  refine ⟨⟨move, hstore.graph.injective, hsize, hstore.graph.node?, hstore.trees_eq,
    fun name => hstore.names name trivial⟩, ?_, ?_, ?_, ?_, ?_, ?_, ?_⟩
  · rw [p.link_eq, p'.link_eq]
    exact hlink'.trans hlink.symm
  · exact (p'.codes_perm hsink).trans (hcoded ▸ (p.codes_perm hsink).symm)
  · exact congrArg (List.filterMap fun d => d.written.toOption) hdeliveries
  · exact congrArg (List.filterMap _) hdeliveries
  · exact congrArg (List.flatMap Delivery.issues) hdeliveries
  · show (p'.analysis.results.filter _).length = (p.analysis.results.filter _).length
    rw [p.analysis_results, p'.analysis_results]
    exact (hresults.filter _).length_eq
  · show (failures p'.analysis.results).Perm (failures p.analysis.results)
    rw [p.analysis_results, p'.analysis_results]
    exact hresults.filterMap _

end

/-- A disk with three schema files; lines and notes are dots. -/
def drawing : Disk where
  entries := [(["Dot.json"], .file (.text (.ofText
      "\x7b\"types\": [\x7b\"name\": \"Dot\", \"formats\": [\"JSON\"]\x7d]\x7d"))),
    (["Line.json"], .file (.text (.ofText
      "\x7b\"types\": [\x7b\"name\": \"Line\", \"bases\": [\"Dot\"], \"formats\": [\"JSON\"]\x7d]\x7d"))),
    (["Note.json"], .file (.text (.ofText
      "\x7b\"types\": [\x7b\"name\": \"Note\", \"bases\": [\"Dot\"], \"formats\": [\"JSON\"]\x7d]\x7d")))]
  here := []

theorem run_drawing :
    (run .builtin ⟨drawing, []⟩ Sink.memory ⟨2, 2⟩ []
      [⟨"Line.json"⟩, ⟨"Dot.json"⟩]).toOption.map (fun done => (done.1.link, done.1.written)) =
        some (⟨1, []⟩, [⟨"Dot.h"⟩, ⟨"Line.h"⟩]) := by
  decide +kernel

/-- The line comes before the dot that it refers to, and the other way round. -/
theorem report_perm_drawing :
    (analysed ⟨drawing, []⟩ [⟨"Line.json"⟩, ⟨"Dot.json"⟩]).Pairwise Analysis.Independent ∧
    ∃ (p : ParallelRun .builtin ⟨drawing, []⟩ Sink.memory ⟨2, 2⟩ [] [⟨"Line.json"⟩, ⟨"Dot.json"⟩])
      (p' : ParallelRun .builtin ⟨drawing, []⟩ Sink.memory ⟨1, 3⟩ [] [⟨"Dot.json"⟩, ⟨"Line.json"⟩]),
      p'.codes.Perm p.codes ∧ p'.report.link = p.report.link ∧
      p'.report.written = p.report.written ∧
      p.report.link = ⟨1, []⟩ ∧ p.report.written = [⟨"Dot.h"⟩, ⟨"Line.h"⟩] := by
  have hind : (analysed ⟨drawing, []⟩ [⟨"Line.json"⟩, ⟨"Dot.json"⟩]).Pairwise
      Analysis.Independent := by decide +kernel
  have hsink : Sink.Steady Sink.memory (fun source _ => .ok source) := fun _ _ _ => rfl
  obtain ⟨p, hp⟩ := exists_parallelRun .builtin ⟨drawing, []⟩ Sink.memory ⟨2, 2⟩ []
    (List.cons_ne_nil (⟨"Line.json"⟩ : FilePath) [⟨"Dot.json"⟩])
  obtain ⟨p', -⟩ := exists_parallelRun .builtin ⟨drawing, []⟩ Sink.memory ⟨1, 3⟩ []
    (List.cons_ne_nil (⟨"Dot.json"⟩ : FilePath) [⟨"Line.json"⟩])
  have hrun := run_drawing
  rw [hp] at hrun
  obtain ⟨hlink, hwritten⟩ := Prod.mk.inj (Option.some.inj hrun)
  obtain ⟨-, hlinks, hcodes, hwrittens, -⟩ :=
    report_perm Registry.isLocal_builtin hsink (List.Perm.swap _ _ _) hind p p'
  exact ⟨hind, p, p', hcodes, hlinks, hwrittens, hlink, hwritten⟩

/-! ### An input more -/

section

variable {σ : Type} {r : Registry} {f : Frontend} {sink : Sink σ} {team team' : Team} {s s' : σ}
  {answer : FilePath → FileCode → Except WriteFault FilePath}

/-- **An unrelated input changes nothing for the others.**  Let the source file of an input be none
of those of the other inputs, and let none of these spell the name of a type that it declares, with
or without a leading `::`.  With the input at any place among the others, the same code is handed
over for all other source files, and the same becomes of it; linking reports the same, but for what
it reports of the types of the input; and up to the numbers of nodes, all nodes that there were
without it are there with the same links, the trees of the other source files are the same, and so
is what all names that it does not declare stand for. -/
theorem deliveries_unrelated (hr : r.IsLocal) (hsink : Sink.Steady sink answer)
    (before after : List FilePath) (extra : FilePath)
    (hunrelated : ∀ x ∈ analysed f [extra], ∀ b ∈ analysed f (before ++ after), x.Unrelated b)
    (p : ParallelRun r f sink team s (before ++ after))
    (p' : ParallelRun r f sink team' s' (before ++ extra :: after)) :
    (p'.codes.filter (spared (analysed f [extra]) ·.1)).Perm p.codes ∧
    p'.generation.results.filter (spared (analysed f [extra]) ·.source) = p.generation.results ∧
    (∃ r₁ x r₂ : LinkReport, p.report.link = r₁.append r₂ ∧
      p'.report.link = r₁.append (x.append r₂)) ∧
    ∃ move : NodeId → NodeId, Function.Injective move ∧
      (∀ a, p'.store.graph.node? (move a) = (p.store.graph.node? a).map (·.mapLinks move)) ∧
      p'.store.trees.filter (spared (analysed f [extra]) ·.source) =
        p.store.trees.map (Tree.move move) ∧
      ∀ name, (∀ x ∈ analysed f [extra], name ∉ x.declared) →
        p'.store.nodeId? name = (p.store.nodeId? name).map move := by
  -- the input is merged between those that come before it and those that come after
  have hmore : analysed f (before ++ extra :: after) =
      analysed f before ++ analysed f [extra] ++ analysed f after := by
    rw [← List.singleton_append, analysed_append, analysed_append, List.append_assoc]
  have hsound : ∀ a ∈ analysed f before ++ analysed f [extra] ++ analysed f after, a.Sound := by
    rw [← hmore]
    exact fun _ => sound_of_mem_analysed
  rw [analysed_append] at hunrelated
  obtain ⟨move, hmove, hspells, hone⟩ :=
    exists_embeds_mergeAll (length_analysed_singleton f extra) hsound hunrelated
  obtain ⟨hlinked, r₁, x, r₂, hlink, hlink', -⟩ := hmove.link hspells hone
  have hstore : Store.Embeds move (spared (analysed f [extra]))
      (fun name => ∀ x ∈ analysed f [extra], name ∉ x.declared) p.store p'.store := by
    rw [p.store_eq, p'.store_eq, hmore, analysed_append]
    exact hlinked
  have hcoded := filter_coded_liveTrees hr hstore p.sound_store p'.sound_store
  refine ⟨?_, ?_, ⟨r₁, x, r₂, ?_, ?_⟩, move, hstore.graph.injective, hstore.graph.node?,
    hstore.trees, hstore.names⟩
  · have hcodes := (p'.codes_perm hsink).filter (spared (analysed f [extra]) ·.1)
    rw [hcoded] at hcodes
    exact hcodes.trans (p.codes_perm hsink).symm
  · rw [p'.results_eq hsink, p.results_eq hsink, List.filter_map, ← hcoded]
    rfl
  · rw [p.link_eq, analysed_append]
    exact hlink
  · rw [p'.link_eq, hmore]
    exact hlink'

end

/-- The note refers to the dot, but nothing refers to it. -/
theorem deliveries_unrelated_drawing :
    (∀ x ∈ analysed ⟨drawing, []⟩ [⟨"Note.json"⟩],
      ∀ b ∈ analysed ⟨drawing, []⟩ [⟨"Line.json"⟩, ⟨"Dot.json"⟩], x.Unrelated b) ∧
    ∃ (p : ParallelRun .builtin ⟨drawing, []⟩ Sink.memory ⟨2, 2⟩ [] [⟨"Line.json"⟩, ⟨"Dot.json"⟩])
      (p' : ParallelRun .builtin ⟨drawing, []⟩ Sink.memory ⟨1, 3⟩ []
        [⟨"Line.json"⟩, ⟨"Note.json"⟩, ⟨"Dot.json"⟩]),
      p'.generation.results.filter (spared (analysed ⟨drawing, []⟩ [⟨"Note.json"⟩]) ·.source) =
        p.generation.results ∧
      p.report.written = [⟨"Dot.h"⟩, ⟨"Line.h"⟩] ∧
      p'.report.written = [⟨"Dot.h"⟩, ⟨"Line.h"⟩, ⟨"Note.h"⟩] := by
  have hunrelated : ∀ x ∈ analysed ⟨drawing, []⟩ [⟨"Note.json"⟩],
      ∀ b ∈ analysed ⟨drawing, []⟩ [⟨"Line.json"⟩, ⟨"Dot.json"⟩], x.Unrelated b := by
    decide +kernel
  have hsink : Sink.Steady Sink.memory (fun source _ => .ok source) := fun _ _ _ => rfl
  obtain ⟨p, hp⟩ := exists_parallelRun .builtin ⟨drawing, []⟩ Sink.memory ⟨2, 2⟩ []
    (List.cons_ne_nil (⟨"Line.json"⟩ : FilePath) [⟨"Dot.json"⟩])
  obtain ⟨p', hp'⟩ := exists_parallelRun .builtin ⟨drawing, []⟩ Sink.memory ⟨1, 3⟩ []
    (List.cons_ne_nil (⟨"Line.json"⟩ : FilePath) [⟨"Note.json"⟩, ⟨"Dot.json"⟩])
  have hrun := run_drawing
  have hrun' : (run .builtin ⟨drawing, []⟩ Sink.memory ⟨1, 3⟩ []
      [⟨"Line.json"⟩, ⟨"Note.json"⟩, ⟨"Dot.json"⟩]).toOption.map (·.1.written) =
        some [⟨"Dot.h"⟩, ⟨"Line.h"⟩, ⟨"Note.h"⟩] := by decide +kernel
  rw [hp] at hrun
  rw [hp'] at hrun'
  obtain ⟨-, hresults, -⟩ := deliveries_unrelated Registry.isLocal_builtin hsink
    [⟨"Line.json"⟩] [⟨"Dot.json"⟩] ⟨"Note.json"⟩ hunrelated p p'
  obtain ⟨-, hwritten⟩ := Prod.mk.inj (Option.some.inj hrun)
  exact ⟨hunrelated, p, p', hresults, hwritten, Option.some.inj hrun'⟩

end Run
end Marshal
