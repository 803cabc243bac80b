import Mathlib.Data.List.Sort
import Mathlib.Data.String.Basic
import Marshal.Header.Code

/-!
# Every request is answered once

A type that is not only written as part of others requests code in each of its formats.  Each of
these requests comes to code or to an issue, never to both; the code for a source file consists of
what its requests come to, in order.  So the code for two lists of types, one after the other, is
the code for the first with the code for the second, whatever goes wrong in either.

## Main definitions

* `Request`, `requests` — what types request.
* `Answered` — what a request has to come to.
* `FileCode.append` — code for two lists of types.

## Main results

* `answered_answer` — what a request comes to is what it has to come to.
* `generate_eq` — the code for a source file, by its requests.
* `generate_requests` — every request is answered once, and no other is affected.
-/

namespace Marshal
namespace Header

open Schema Plugin

/-! ### Requests -/

/-- A request for the code of a type in a format. -/
structure Request where
  /-- The node of the type. -/
  id : NodeId
  /-- The name of the type. -/
  typeName : String
  /-- The format. -/
  format : String

/-- What a node requests: each of its formats, unless it is only written as part of others. -/
def requestsOf (g : Graph) (id : NodeId) : List Request :=
  match g.node? id with
  | none => []
  | some n => if n.isPod then [] else n.formats.map fun format => ⟨id, n.name, format⟩

/-- What nodes request, in order. -/
def requests (g : Graph) (ids : List NodeId) : List Request := ids.flatMap (requestsOf g)

/-- What a request has to come to. -/
inductive Answered (r : Registry) (g : Graph) (q : Request) : Answer → Prop where
  /-- There is no plugin for the format. -/
  | missing (hplugin : r.get? q.format = none) :
      Answered r g q (.issue (.missingPlugin q.typeName q.format))
  /-- The plugin has no code for the node. -/
  | failed {plugin : Plugin} {cause : Failure} (hplugin : r.get? q.format = some plugin)
      (hcause : plugin.generate g q.id = .error cause) :
      Answered r g q (.issue (.failed q.typeName q.format cause))
  /-- The plugin has code for the node, which needs the headers of the plugin. -/
  | written {plugin : Plugin} {text : String} (hplugin : r.get? q.format = some plugin)
      (htext : plugin.generate g q.id = .ok text) :
      Answered r g q (.code q.format (continued text) plugin.includes)

/-- What a request comes to. -/
def Request.answer (r : Registry) (g : Graph) (q : Request) : Answer :=
  request r g q.id q.typeName q.format

section

variable {r : Registry} {g : Graph} {q : Request}

/-- A request comes to one thing only. -/
theorem Answered.unique {a b : Answer} (ha : Answered r g q a) (hb : Answered r g q b) : a = b := by
  cases ha <;> cases hb <;> simp_all

/-- **What a request comes to is what it has to come to.** -/
theorem answered_answer (r : Registry) (g : Graph) (q : Request) :
    Answered r g q (q.answer r g) := by
  unfold Request.answer request
  cases hplugin : r.get? q.format with
  | none => exact .missing hplugin
  | some plugin =>
    dsimp only
    cases htext : plugin.generate g q.id with
    | error cause => exact .failed hplugin htext
    | ok text => exact .written hplugin htext

/-- Headers are needed exactly by the requests whose plugin has code. -/
theorem mem_needed_answer {i : String} :
    i ∈ (q.answer r g).needed ↔ ∃ plugin text, r.get? q.format = some plugin ∧
      plugin.generate g q.id = .ok text ∧ i ∈ plugin.includes := by
  constructor
  · intro hi
    generalize hanswer : q.answer r g = answer at hi
    have hanswered := answered_answer r g q
    rw [hanswer] at hanswered
    cases hanswered with
    | missing => cases hi
    | failed => cases hi
    | written hplugin htext => exact ⟨_, _, hplugin, htext, hi⟩
  · rintro ⟨plugin, text, hplugin, htext, hi⟩
    rw [(answered_answer r g q).unique (.written hplugin htext)]
    exact hi

theorem answers_eq {id : NodeId} {n : Node} (hn : g.node? id = some n) :
    answers r g id n = (requestsOf g id).map (·.answer r g) := by
  unfold answers requestsOf
  rw [hn]
  dsimp only
  split
  · rfl
  · rw [List.map_map]
    rfl

end

/-! ### The code for all requests -/

/-- The code of some requests, as formats with texts. -/
def codesOf (r : Registry) (g : Graph) (qs : List Request) : List (String × String) :=
  qs.filterMap fun q => (q.answer r g).code?

/-- The issues of some requests. -/
def issuesOf (r : Registry) (g : Graph) (qs : List Request) : List Issue :=
  qs.filterMap fun q => (q.answer r g).issue?

/-- The headers that the code of some requests needs. -/
def neededBy (r : Registry) (g : Graph) (qs : List Request) : List String :=
  qs.flatMap fun q => (q.answer r g).needed

/-- The code of a type, if any of its requests comes to code. -/
def typeCode? (r : Registry) (g : Graph) (id : NodeId) : Option TypeCode :=
  (g.nameOf id).bind fun name =>
    if codesOf r g (requestsOf g id) = [] then none else some ⟨name, codesOf r g (requestsOf g id)⟩

/-- Code for two lists of types, one after the other. -/
def FileCode.append (c d : FileCode) : FileCode :=
  ⟨c.types ++ d.types, unite c.includes d.includes, c.issues ++ d.issues⟩

section

variable {r : Registry} {g : Graph} {ids : List NodeId}

theorem addNode_eq (r : Registry) (g : Graph) (c : FileCode) (id : NodeId) :
    addNode r g c id = ⟨c.types ++ (typeCode? r g id).toList,
      unite c.includes (neededBy r g (requestsOf g id)),
      c.issues ++ issuesOf r g (requestsOf g id)⟩ := by
  unfold addNode typeCode? Graph.nameOf
  cases hn : g.node? id with
  | none =>
    have hnone : requestsOf g id = [] := by rw [requestsOf, hn]
    rw [hnone]
    simp [neededBy, issuesOf, unite]
  | some n =>
    have hcodes : (answers r g id n).filterMap Answer.code? = codesOf r g (requestsOf g id) := by
      rw [answers_eq hn, List.filterMap_map]
      rfl
    have hissues : (answers r g id n).filterMap Answer.issue? = issuesOf r g (requestsOf g id) := by
      rw [answers_eq hn, List.filterMap_map]
      rfl
    have hneeded : (answers r g id n).flatMap Answer.needed = neededBy r g (requestsOf g id) := by
      rw [answers_eq hn, List.flatMap_map]
      rfl
    simp only [addType, hcodes, hissues, hneeded, Option.map_some, Option.bind_some]
    cases codesOf r g (requestsOf g id) with
    | nil => simp
    | cons code codes => simp

/-- **The code for a source file, by its requests.** -/
theorem generate_eq (r : Registry) (g : Graph) (ids : List NodeId) :
    generate r g ids = ⟨ids.filterMap (typeCode? r g), unite [] (neededBy r g (requests g ids)),
      issuesOf r g (requests g ids)⟩ := by
  have key : ∀ c : FileCode, ids.foldl (addNode r g) c =
      ⟨c.types ++ ids.filterMap (typeCode? r g),
        unite c.includes (neededBy r g (requests g ids)),
        c.issues ++ issuesOf r g (requests g ids)⟩ := by
    induction ids with
    | nil => intro c; simp [requests, neededBy, issuesOf, unite]
    | cons id ids ih =>
      intro c
      rw [List.foldl_cons, ih, addNode_eq]
      have htypes : (id :: ids).filterMap (typeCode? r g) =
          (typeCode? r g id).toList ++ ids.filterMap (typeCode? r g) := by
        cases h : typeCode? r g id <;> simp [h]
      simp only [requests, List.flatMap_cons, neededBy, issuesOf, unite, List.foldl_append,
        List.flatMap_append, List.filterMap_append, htypes, List.append_assoc]
  exact key .empty

end

/-! ### Headers -/

section

variable {s t : String} {as bs ts : List String}

theorem mem_insertSorted : s ∈ insertSorted t ts ↔ s = t ∨ s ∈ ts := by
  induction ts with
  | nil => simp [insertSorted]
  | cons u ts ih =>
    unfold insertSorted
    split
    · exact List.mem_cons
    · split
      · rename_i htu
        rw [htu, List.mem_cons, or_self_left]
      · rw [List.mem_cons, ih, List.mem_cons, or_left_comm]

theorem mem_unite : s ∈ unite as bs ↔ s ∈ as ∨ s ∈ bs := by
  unfold unite
  induction bs generalizing as with
  | nil => simp
  | cons b bs ih => rw [List.foldl_cons, ih, mem_insertSorted, List.mem_cons, or_assoc, or_left_comm]

theorem pairwise_insertSorted (h : ts.Pairwise (· < ·)) :
    (insertSorted s ts).Pairwise (· < ·) := by
  induction ts with
  | nil => exact List.pairwise_singleton _ _
  | cons u ts ih =>
    obtain ⟨hu, hts⟩ := List.pairwise_cons.1 h
    unfold insertSorted
    split
    · rename_i hlt
      refine List.pairwise_cons.2 ⟨fun v hv => ?_, h⟩
      rcases List.mem_cons.1 hv with rfl | hv
      · exact hlt
      · exact lt_trans hlt (hu v hv)
    · split
      · exact h
      · rename_i hlt hne
        refine List.pairwise_cons.2 ⟨fun v hv => ?_, ih hts⟩
        rcases mem_insertSorted.1 hv with rfl | hv
        · exact lt_of_le_of_ne (not_lt.1 hlt) (Ne.symm hne)
        · exact hu v hv

theorem pairwise_unite (h : as.Pairwise (· < ·)) : (unite as bs).Pairwise (· < ·) := by
  unfold unite
  induction bs generalizing as with
  | nil => exact h
  | cons b bs ih => exact ih (pairwise_insertSorted h)

/-- Uniting texts in two rounds is uniting them in one. -/
theorem unite_nil_append (as bs : List String) :
    unite [] (as ++ bs) = unite (unite [] as) (unite [] bs) := by
  refine List.Pairwise.eq_of_mem_iff (pairwise_unite List.Pairwise.nil)
    (pairwise_unite (pairwise_unite List.Pairwise.nil)) fun s => ?_
  simp only [mem_unite, List.mem_append, List.not_mem_nil, false_or]

end

/-! ### One answer for each request -/

section

variable {r : Registry} {g : Graph}

/-- The code of a type, entry by entry. -/
def TypeCode.entries (t : TypeCode) : List (String × String × String) :=
  t.formats.map fun (format, text) => (t.typeName, format, text)

/-- What a request adds to the code, if anything. -/
def Request.entry? (r : Registry) (g : Graph) (q : Request) : Option (String × String × String) :=
  (q.answer r g).code?.map fun (format, text) => (q.typeName, format, text)

/-- Each request comes to an entry or to an issue, and not to both. -/
theorem length_entries_add_issues (r : Registry) (g : Graph) (qs : List Request) :
    (qs.filterMap (Request.entry? r g)).length + (issuesOf r g qs).length = qs.length := by
  induction qs with
  | nil => rfl
  | cons q qs ih =>
    cases hanswer : q.answer r g with
    | code format text includes =>
      have hentry : (q :: qs).filterMap (Request.entry? r g) =
          (q.typeName, format, text) :: qs.filterMap (Request.entry? r g) :=
        List.filterMap_cons_some (by rw [Request.entry?, hanswer]; rfl)
      have hissues : issuesOf r g (q :: qs) = issuesOf r g qs :=
        List.filterMap_cons_none (by rw [hanswer]; rfl)
      rw [hentry, hissues, List.length_cons, List.length_cons]
      omega
    | issue i =>
      have hentry : (q :: qs).filterMap (Request.entry? r g) =
          qs.filterMap (Request.entry? r g) :=
        List.filterMap_cons_none (by rw [Request.entry?, hanswer]; rfl)
      have hissues : issuesOf r g (q :: qs) = i :: issuesOf r g qs :=
        List.filterMap_cons_some (by rw [hanswer]; rfl)
      rw [hentry, hissues, List.length_cons, List.length_cons]
      omega

theorem typeName_of_mem_requestsOf {id : NodeId} {q : Request} (hq : q ∈ requestsOf g id) :
    g.nameOf id = some q.typeName := by
  unfold requestsOf at hq
  unfold Graph.nameOf
  cases hn : g.node? id with
  | none => rw [hn] at hq; cases hq
  | some n =>
    rw [hn] at hq
    dsimp only at hq
    split at hq
    · cases hq
    · obtain ⟨format, -, rfl⟩ := List.mem_map.1 hq
      rfl

theorem entries_typeCode? (r : Registry) (g : Graph) (id : NodeId) :
    (typeCode? r g id).toList.flatMap TypeCode.entries =
      (requestsOf g id).filterMap (Request.entry? r g) := by
  unfold typeCode?
  cases hname : g.nameOf id with
  | none =>
    have hnone : requestsOf g id = [] := by
      refine List.eq_nil_iff_forall_not_mem.2 fun q hq => ?_
      rw [typeName_of_mem_requestsOf hq] at hname
      cases hname
    rw [hnone]
    rfl
  | some name =>
    have hentries : (requestsOf g id).filterMap (Request.entry? r g) =
        (codesOf r g (requestsOf g id)).map fun (format, text) => (name, format, text) := by
      rw [codesOf, List.map_filterMap]
      refine List.filterMap_congr fun q hq => ?_
      obtain rfl : name = q.typeName :=
        Option.some.inj (hname.symm.trans (typeName_of_mem_requestsOf hq))
      rfl
    rw [hentries]
    cases codesOf r g (requestsOf g id) with
    | nil => rfl
    | cons code codes => simp [TypeCode.entries]

/-- **Every request is answered once, and no other is affected.**  Each request comes to code, to a
missing plugin or to the failure of its plugin.  The code of a file is that of its types, in order,
those without any left out; entry by entry it is the code of the requests, in order, and the issues
are theirs; there is one entry or one issue for each request.  The headers are those of the plugins
that gave code.  The code for further types is put to it and changes nothing. -/
theorem generate_requests (r : Registry) (g : Graph) (ids : List NodeId) :
    (∀ q answer, Answered r g q answer ↔ answer = q.answer r g) ∧
    (generate r g ids).types = ids.filterMap (typeCode? r g) ∧
    (generate r g ids).types.flatMap TypeCode.entries =
      (requests g ids).filterMap (Request.entry? r g) ∧
    (generate r g ids).issues = issuesOf r g (requests g ids) ∧
    ((generate r g ids).types.flatMap TypeCode.entries).length + (generate r g ids).issues.length =
      (requests g ids).length ∧
    (generate r g ids).includes.Pairwise (· < ·) ∧
    (∀ i, i ∈ (generate r g ids).includes ↔ ∃ q ∈ requests g ids, ∃ plugin text,
      r.get? q.format = some plugin ∧ plugin.generate g q.id = .ok text ∧ i ∈ plugin.includes) ∧
    ∀ more, generate r g (ids ++ more) = (generate r g ids).append (generate r g more) := by
  have hentries : (generate r g ids).types.flatMap TypeCode.entries =
      (requests g ids).filterMap (Request.entry? r g) := by
    rw [generate_eq, requests, List.filterMap_flatMap]
    simp only [← entries_typeCode?]
    rw [List.filterMap_eq_flatMap_toList, List.flatMap_assoc]
  refine ⟨fun q answer => ⟨fun h => h.unique (answered_answer r g q), ?_⟩, by rw [generate_eq],
    hentries, by rw [generate_eq], ?_, ?_, fun i => ?_, fun more => ?_⟩
  · rintro rfl
    exact answered_answer r g q
  · rw [hentries, generate_eq, length_entries_add_issues]
  · rw [generate_eq]
    exact pairwise_unite List.Pairwise.nil
  · rw [generate_eq]
    simp only [mem_unite, List.not_mem_nil, false_or, neededBy, List.mem_flatMap, mem_needed_answer]
  · simp only [generate_eq, FileCode.append, List.filterMap_append, requests, List.flatMap_append,
      neededBy, issuesOf, unite_nil_append]

end

/-- A plugin for one format, which has no code for one type. -/
def fixed : Plugin :=
  .ofNode "FIXED" 0 ["<fixed.h>"] fun _ n =>
    if n.name = "Broken" then .error (.refused 9 "no") else .ok "f();"

/-- Types that ask for a format without plugin, for one with a plugin that fails, and for code they
are not given because they are only written as part of others. -/
def mixed : Graph :=
  let type (name : String) (policy : Policy) (formats : List String) : Node :=
    ⟨name, policy, formats, [], []⟩
  ⟨[type "A" .all ["XML", "FIXED", "FIXED"], type "Broken" .all ["FIXED"], type "P" .pod ["FIXED"],
    type "B" .all ["FIXED"]]⟩

theorem generate_requests_mixed :
    (generate (Registry.empty.register fixed 0).2 mixed [0, 1, 2, 3, 0]).types.map
      (fun t => (t.typeName, t.formats.length)) = [("A", 2), ("B", 1), ("A", 2)] ∧
    (generate (Registry.empty.register fixed 0).2 mixed [0, 1, 2, 3, 0]).issues =
      [.missingPlugin "A" "XML", .failed "Broken" "FIXED" (.refused 9 "no"),
        .missingPlugin "A" "XML"] ∧
    ((generate (Registry.empty.register fixed 0).2 mixed [0, 1, 2, 3, 0]).types.flatMap
      TypeCode.entries).length +
      (generate (Registry.empty.register fixed 0).2 mixed [0, 1, 2, 3, 0]).issues.length = 8 := by
  obtain ⟨-, htypes, -, hissues, hlength, -⟩ :=
    generate_requests (Registry.empty.register fixed 0).2 mixed [0, 1, 2, 3, 0]
  refine ⟨by rw [htypes]; decide +kernel, hissues.trans (by decide +kernel), ?_⟩
  exact hlength.trans (by decide +kernel)

end Header
end Marshal
