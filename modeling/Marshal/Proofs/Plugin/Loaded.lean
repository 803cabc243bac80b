import Marshal.Plugin.Library
import Marshal.Proofs.Emit.Unfold
import Marshal.Proofs.Schema.Wire

/-!
# Plugins that are loaded back

A plugin that is put behind a table and loaded from it is the plugin it was.  Its headers cross as
one text and are taken apart again by lines; a node crosses as the text of its bundle, and the
plugin is asked for the code of what is restored from it, which mirrors the node.

## Main definitions

* `IsHeader` — what a header that survives the crossing looks like.

## Main results

* `splitIncludes_joinIncludes` — headers are taken apart as they were joined.
* `answer_requestFor` — the answer to a request is that for the copy of the node.
* `loaded_plugin` — a loaded plugin is the plugin that was put behind the table.
-/

namespace Marshal
namespace Plugin

open Schema

/-! ### Headers -/

/-- A header that stands on a line of its own. -/
def IsHeader (header : String) : Prop :=
  header ≠ "" ∧ '\n' ∉ header.toList ∧ header.toList.getLast? ≠ some '\r'

instance (header : String) : Decidable (IsHeader header) := by
  unfold IsHeader
  infer_instance

/-- Headers are taken apart as they were joined. -/
theorem splitIncludes_joinIncludes {includes : List String} (h : ∀ i ∈ includes, IsHeader i) :
    splitIncludes (joinIncludes includes) = includes := by
  have hlines : Text.lines (joinIncludes includes).toList = includes.map String.toList := by
    unfold joinIncludes
    induction includes with
    | nil => rfl
    | cons i is ih =>
      obtain ⟨hne, hnewline, hreturn⟩ := h i List.mem_cons_self
      have ih := ih fun j hj => h j (List.mem_cons_of_mem i hj)
      cases is with
      | nil =>
        have hchars : i.toList ≠ [] := by simpa using hne
        rw [String.intercalate_singleton, Text.lines_of_newline_notMem hchars hnewline]
        rfl
      | cons j js =>
        have hsplit : ("\n".intercalate (i :: j :: js)).toList =
            i.toList ++ '\n' :: ("\n".intercalate (j :: js)).toList := by
          simp [String.intercalate_cons_cons]
        rw [hsplit, Text.lines_append_newline _ _ hnewline hreturn, ih]
        rfl
  have hkept : (includes.map String.toList).filter (· ≠ []) = includes.map String.toList := by
    rw [List.filter_eq_self]
    intro l hl
    obtain ⟨i, hi, rfl⟩ := List.mem_map.1 hl
    simpa using (h i hi).1
  rw [splitIncludes, hlines, hkept, List.map_map]
  simp [Function.comp_def]

/-! ### Requests -/

/-- **The answer to a request for a node is the code for the copy of the node.** -/
theorem answer_requestFor (p : Plugin) {g : Graph} {root : NodeId} (hg : g.Closed)
    (hwords : g.Addressable) (hroot : root < g.size)
    (hdepth : (Bundle.capture g root).encode.depth ≤ Json.deepest) :
    answer p (Raw.ofText (requestFor g root)) = p.generate (g.copy root) 0 := by
  have hread := Bundle.read_print_capture hg hwords hroot hdepth
  have hrestore := Bundle.restore_capture hg hroot
  simp only [answer, readRequest, requestFor, hread, Except.mapError, bind, Except.bind, hrestore]

/-- The plugin for JSON has the same code for the copy of a node as for the node, and none for the
same reason. -/
theorem generate_copy (priority : Nat) {g : Graph} {root : NodeId} (hg : g.Closed)
    (hroot : root < g.size) :
    (Plugin.json priority).generate (g.copy root) 0 = (Plugin.json priority).generate g root := by
  have hrelated := (Graph.mirrors_copy hg hroot).bisimulation
  have hnodes := hrelated root 0 ⟨.refl, Graph.number_root.symm⟩
  simp only [json, ofNode]
  cases hn : g.node? root with
  | none =>
    rw [hn] at hnodes
    cases hn' : (g.copy root).node? 0 with
    | none => rfl
    | some n' => rw [hn'] at hnodes; cases hnodes
  | some n =>
    rw [hn] at hnodes
    cases hn' : (g.copy root).node? 0 with
    | none => rw [hn'] at hnodes; cases hnodes
    | some n' =>
      rw [hn'] at hnodes
      cases hnodes with
      | some halike =>
        show (Emit.generate (g.copy root) n').mapError _ = (Emit.generate g n).mapError _
        rw [Emit.generate_alike hrelated halike]

/-- The plugin for JSON returns, whatever it is asked for. -/
theorem json_ne_crashed (priority : Nat) (g : Graph) (root : NodeId) :
    (Plugin.json priority).generate g root ≠ .error .crashed := by
  simp only [json, ofNode]
  cases g.node? root with
  | none => simp
  | some n =>
    cases hcode : Emit.generate g n with
    | ok code => simp [hcode, Except.mapError]
    | error cause => simp [hcode, Except.mapError]

/-- The result of a reply tells the code from the reason why there is none. -/
theorem result_reply {p : Plugin} {request : Raw} (h : answer p request ≠ .error .crashed) :
    (reply p request).result =
      (answer p request).mapError fun cause => .refused 1 cause.message := by
  cases hanswer : answer p request with
  | ok code => simp [reply, hanswer, Reply.result, Except.mapError]
  | error cause =>
    cases cause with
    | crashed => exact absurd hanswer h
    | _ => simp [reply, hanswer, Reply.result, Except.mapError]

/-! ### Loading -/

theorem toPlugin_ofPlugin {p : Plugin} (hformat : p.format ≠ "")
    (hincludes : ∀ i ∈ p.includes, IsHeader i) :
    (Table.ofPlugin p).toPlugin = .ok ⟨p.format, p.priority, p.includes,
      fun g root => (reply p (Raw.ofText (requestFor g root))).result⟩ := by
  have htext : tableText? (some (Raw.ofText p.format)) = some p.format := Raw.toText?_ofText _
  have hheaders : tableText? (some (Raw.ofText (joinIncludes p.includes))) =
      some (joinIncludes p.includes) := Raw.toText?_ofText _
  simp only [Table.toPlugin, Table.ofPlugin, htext, hheaders, Option.getD_some,
    splitIncludes_joinIncludes hincludes, ne_eq, not_true_eq_false, if_false]

/-- **A plugin that is loaded back is the plugin that was put behind the table.**  It has the same
format, priority and headers.  The plugin for JSON also has, for every node that can be handed
over, the same code, and where there is none it fails with status one and says why. -/
theorem loaded_plugin (path : FilePath) (p : Plugin) (hformat : p.format ≠ "")
    (hincludes : ∀ i ∈ p.includes, IsHeader i) :
    ∃ q, Library.plugin path (some (.table (.ofPlugin p))) = .ok q ∧
      q.format = p.format ∧ q.priority = p.priority ∧ q.includes = p.includes ∧
      ∀ priority, p = .json priority → ∀ (g : Graph) (root : NodeId), g.Closed → g.Addressable →
        root < g.size → (Bundle.capture g root).encode.depth ≤ Json.deepest →
        (∀ code, q.generate g root = .ok code ↔ p.generate g root = .ok code) ∧
        ∀ message, q.generate g root = .error (.refused 1 message) ↔
          ∃ cause, p.generate g root = .error cause ∧ cause.message = message := by
  refine ⟨⟨p.format, p.priority, p.includes,
    fun g root => (reply p (Raw.ofText (requestFor g root))).result⟩, ?_, rfl, rfl, rfl, ?_⟩
  · rw [Library.plugin, toPlugin_ofPlugin hformat hincludes]
  · rintro priority rfl g root hg hwords hroot hdepth
    have hanswer := (answer_requestFor (.json priority) hg hwords hroot hdepth).trans
      (generate_copy priority hg hroot)
    have hresult := result_reply (hanswer ▸ json_ne_crashed priority g root)
    simp only [hresult, hanswer]
    cases (Plugin.json priority).generate g root with
    | ok code => simp [Except.mapError]
    | error cause => simp [Except.mapError]

/-- A graph of a type that refers to itself, and of one that can only be written as part of
others. -/
def pair : Graph :=
  ⟨[⟨"A", .all, ["JSON"], [⟨"next", "", .object, "A", .anyone, some 0⟩], []⟩,
    ⟨"P", .pod, [], [], []⟩]⟩

theorem loaded_pair :
    ((Plugin.json 1).format ≠ "" ∧ ∀ i ∈ (Plugin.json 1).includes, IsHeader i) ∧
    ∃ q, Library.plugin ⟨"libjson.so"⟩ (some (.table (.ofPlugin (.json 1)))) = .ok q ∧
      q.format = "JSON" ∧ q.priority = 1 ∧ q.includes = jsonIncludes ∧
      (∀ code, q.generate pair 0 = .ok code ↔ (Plugin.json 1).generate pair 0 = .ok code) ∧
      q.generate pair 1 =
        .error (.refused 1 "type `P` uses the POD policy and is only emitted inline") := by
  have hformat : (Plugin.json 1).format ≠ "" := by decide
  have hincludes : ∀ i ∈ (Plugin.json 1).includes, IsHeader i := by decide
  obtain ⟨q, hq, hsame, hpriority, hheaders, hcode⟩ :=
    loaded_plugin ⟨"libjson.so"⟩ (.json 1) hformat hincludes
  have hself := hcode 1 rfl pair 0 (by decide) (by decide) (by decide) (by decide)
  have hpod := hcode 1 rfl pair 1 (by decide) (by decide) (by decide) (by decide)
  refine ⟨⟨hformat, hincludes⟩, q, hq, hsame, hpriority, hheaders, hself.1, ?_⟩
  exact (hpod.2 _).2 ⟨.noCode (.podNode "P"), by rfl, by decide⟩

end Plugin
end Marshal
