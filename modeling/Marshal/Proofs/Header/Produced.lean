import Mathlib.Data.List.Basic
import Marshal.Proofs.Header.Requests

/-!
# The types that have code

What the code of a file consists of, read off the types themselves: a type has code if it is not
only written as part of others, and some format it asks for has a plugin that gives code for it.

## Main definitions

* `Produced`, `produced` — the types that have code, with what the plugins gave.
* `HasCode` — whether a type has code, by its requests.

## Main results

* `generate_types` — the code of a file is that of the types that have any.
* `hasCode_iff`, `not_hasCode_iff` — which types have code.
* `includes_of_generate` — what is included is needed by some plugin.
-/

namespace Marshal
namespace Header

open Schema Plugin

/-- A type that has code, with what the plugins gave for the formats it asks for. -/
structure Produced where
  /-- The name of the type. -/
  name : String
  /-- The formats, in the order asked for, with the code as the plugins gave it. -/
  codes : List (String × String)

/-- The code of a type in a format, as the plugin gives it. -/
def given? (r : Registry) (g : Graph) (id : NodeId) (format : String) : Option (String × String) :=
  (r.get? format).bind fun plugin => (plugin.generate g id).toOption.map fun text => (format, text)

/-- What there is for one type, if any; a type that is only written as part of others has none. -/
def produced? (r : Registry) (g : Graph) (id : NodeId) : Option Produced :=
  (g.node? id).bind fun n =>
    let codes := if n.isPod then [] else n.formats.filterMap (given? r g id)
    if codes = [] then none else some ⟨n.name, codes⟩

/-- The types of a tree that have code. -/
def produced (r : Registry) (g : Graph) (ids : List NodeId) : List Produced :=
  ids.filterMap (produced? r g)

/-- The code of a type with its lines continued. -/
def Produced.typeCode (t : Produced) : TypeCode :=
  ⟨t.name, t.codes.map fun (format, text) => (format, continued text)⟩

section

variable {r : Registry} {g : Graph} {ids : List NodeId}

theorem request_code? (r : Registry) (g : Graph) (id : NodeId) (name format : String) :
    (request r g id name format).code? =
      (given? r g id format).map fun (format, text) => (format, continued text) := by
  unfold request given?
  cases r.get? format with
  | none => rfl
  | some plugin =>
    simp only [Option.bind_some]
    cases plugin.generate g id with
    | error cause => rfl
    | ok text => rfl

theorem codesOf_requestsOf {id : NodeId} {n : Node} (hn : g.node? id = some n) :
    codesOf r g (requestsOf g id) =
      (if n.isPod then [] else n.formats.filterMap (given? r g id)).map
        fun (format, text) => (format, continued text) := by
  rw [codesOf, requestsOf, hn]
  dsimp only
  by_cases hpod : n.isPod
  · rw [if_pos hpod, if_pos hpod]
    rfl
  · rw [if_neg hpod, if_neg hpod, List.filterMap_map, List.map_filterMap]
    exact List.filterMap_congr fun format _ => request_code? r g id n.name format

theorem typeCode?_eq (r : Registry) (g : Graph) (id : NodeId) :
    typeCode? r g id = (produced? r g id).map Produced.typeCode := by
  unfold typeCode? produced? Graph.nameOf
  cases hn : g.node? id with
  | none => rfl
  | some n =>
    rw [codesOf_requestsOf hn]
    simp only [Option.map_some, Option.bind_some]
    generalize (if n.isPod then [] else n.formats.filterMap (given? r g id)) = codes
    cases codes with
    | nil => rfl
    | cons code codes => simp [Produced.typeCode]

/-- **The code of a file is that of the types that have any**, in declaration order. -/
theorem generate_types (r : Registry) (g : Graph) (ids : List NodeId) :
    (generate r g ids).types = (produced r g ids).map Produced.typeCode := by
  rw [generate_eq, produced, List.map_filterMap]
  exact List.filterMap_congr fun id _ => typeCode?_eq r g id

/-! ### Types with code -/

/-- Whether some request of a type comes to code. -/
def HasCode (r : Registry) (g : Graph) (id : NodeId) : Prop :=
  ∃ q ∈ requestsOf g id, ∃ format text includes, Answered r g q (.code format text includes)

theorem code?_answer {q : Request} {c : String × String} :
    (q.answer r g).code? = some c ↔ ∃ includes, Answered r g q (.code c.1 c.2 includes) := by
  constructor
  · intro hcode
    have hanswered := answered_answer r g q
    cases hanswer : q.answer r g with
    | issue i =>
      rw [hanswer] at hcode
      cases hcode
    | code format text includes =>
      rw [hanswer] at hcode hanswered
      cases hcode
      exact ⟨includes, hanswered⟩
  · rintro ⟨includes, hanswered⟩
    rw [(answered_answer r g q).unique hanswered]
    rfl

theorem mem_codesOf {qs : List Request} {c : String × String} :
    c ∈ codesOf r g qs ↔ ∃ q ∈ qs, ∃ includes, Answered r g q (.code c.1 c.2 includes) := by
  simp only [codesOf, List.mem_filterMap, code?_answer]

theorem hasCode_iff {id : NodeId} : HasCode r g id ↔ codesOf r g (requestsOf g id) ≠ [] := by
  constructor
  · rintro ⟨q, hq, format, text, includes, hanswered⟩
    exact List.ne_nil_of_mem (a := (format, text)) (mem_codesOf.2 ⟨q, hq, includes, hanswered⟩)
  · intro hne
    obtain ⟨c, hc⟩ := List.exists_mem_of_ne_nil _ hne
    obtain ⟨q, hq, includes, hanswered⟩ := mem_codesOf.1 hc
    exact ⟨q, hq, c.1, c.2, includes, hanswered⟩

/-- A type has no code if whatever it requests comes to an issue. -/
theorem not_hasCode_iff {id : NodeId} :
    ¬ HasCode r g id ↔ ∀ q ∈ requestsOf g id, ∃ i, Answered r g q (.issue i) := by
  constructor
  · intro hnone q hq
    have hanswered := answered_answer r g q
    cases hanswer : q.answer r g with
    | issue i =>
      rw [hanswer] at hanswered
      exact ⟨i, hanswered⟩
    | code format text includes =>
      rw [hanswer] at hanswered
      exact absurd ⟨q, hq, format, text, includes, hanswered⟩ hnone
  · rintro hissues ⟨q, hq, format, text, includes, hanswered⟩
    obtain ⟨i, hissue⟩ := hissues q hq
    cases hanswered.unique hissue

/-- A type that has code has a name, under which its code is kept. -/
theorem typeCode?_eq_some_iff {id : NodeId} {t : TypeCode} :
    typeCode? r g id = some t ↔ g.nameOf id = some t.typeName ∧ HasCode r g id ∧
      t.formats = codesOf r g (requestsOf g id) := by
  obtain ⟨typeName, formats⟩ := t
  rw [typeCode?, Option.bind_eq_some_iff, hasCode_iff]
  constructor
  · rintro ⟨name, hname, h⟩
    split at h
    · cases h
    · rename_i hne
      cases h
      exact ⟨hname, hne, rfl⟩
  · rintro ⟨hname, hne, hformats⟩
    refine ⟨typeName, hname, ?_⟩
    dsimp only at hformats
    rw [if_neg hne, ← hformats]

theorem HasCode.typeCode? {id : NodeId} {name : String} (hcode : HasCode r g id)
    (hname : g.nameOf id = some name) :
    typeCode? r g id = some ⟨name, codesOf r g (requestsOf g id)⟩ :=
  typeCode?_eq_some_iff.2 ⟨hname, hcode, rfl⟩

theorem produced?_eq_none_iff {id : NodeId} : produced? r g id = none ↔ ¬ HasCode r g id := by
  rw [← Option.map_eq_none_iff (f := Produced.typeCode), ← typeCode?_eq,
    Option.eq_none_iff_forall_ne_some]
  constructor
  · rintro hnone ⟨q, hq, hanswered⟩
    have hcode : HasCode r g id := ⟨q, hq, hanswered⟩
    exact hnone _ (hcode.typeCode? (typeName_of_mem_requestsOf hq))
  · exact fun hnone t ht => hnone (typeCode?_eq_some_iff.1 ht).2.1

/-! ### Where headers and formats come from -/

theorem mem_entries_of_get? {format : String} {plugin : Plugin} (h : r.get? format = some plugin) :
    ∃ e ∈ r.entries, e.name = format ∧ e.plugin = plugin := by
  obtain ⟨e, he, rfl⟩ := Option.map_eq_some_iff.1 h
  exact ⟨e, List.mem_of_find?_eq_some he, by simpa using List.find?_some he, rfl⟩

/-- What is included is needed by some plugin. -/
theorem includes_of_generate {i : String} (h : i ∈ (generate r g ids).includes) :
    ∃ e ∈ r.entries, i ∈ e.plugin.includes := by
  rw [generate_eq, mem_unite] at h
  obtain ⟨q, -, hi⟩ := List.mem_flatMap.1 (h.resolve_left List.not_mem_nil)
  obtain ⟨plugin, text, hplugin, -, hi⟩ := mem_needed_answer.1 hi
  obtain ⟨e, he, -, rfl⟩ := mem_entries_of_get? hplugin
  exact ⟨e, he, hi⟩

/-- The formats of the types that have code have plugins. -/
theorem format_of_produced {t : Produced} (ht : t ∈ produced r g ids) {format text : String}
    (h : (format, text) ∈ t.codes) : ∃ e ∈ r.entries, e.name = format := by
  obtain ⟨id, -, ht⟩ := List.mem_filterMap.1 ht
  obtain ⟨n, -, ht⟩ := Option.bind_eq_some_iff.1 ht
  by_cases hpod : n.isPod
  · simp [hpod] at ht
  · simp only [if_neg hpod] at ht
    split at ht
    · cases ht
    · obtain rfl := Option.some.inj ht
      obtain ⟨asked, -, hgiven⟩ := List.mem_filterMap.1 h
      obtain ⟨plugin, hplugin, hgiven⟩ := Option.bind_eq_some_iff.1 hgiven
      obtain ⟨given, -, hpair⟩ := Option.map_eq_some_iff.1 hgiven
      obtain ⟨e, he, hname, -⟩ := mem_entries_of_get? hplugin
      exact ⟨e, he, hname.trans (Prod.mk.inj hpair).1⟩

end

end Header
end Marshal
