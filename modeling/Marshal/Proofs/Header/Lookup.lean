import Mathlib.Data.List.Count
import Marshal.Proofs.Header.Names
import Marshal.Proofs.Schema.Contents

/-!
# Looking up code

The code for a type in a format is looked up by the two names: in the first type of that name that
has code, the first code in that format.  So whatever is found was generated; but if a file has
several types of one name, the code of all but the first one is not looked at.  Such a file comes
of analyses of one source file that are merged.

## Main definitions

* `Made` — whether some type of a name has code in a format.

## Main results

* `code?_generate_eq_some` — what is found.
* `code?_generate_complete` — what is found, and when it is all there is.
-/

namespace Marshal
namespace Header

open Schema Plugin

/-- Whether some type of a name has code in a format. -/
def Made (r : Registry) (g : Graph) (ids : List NodeId) (typeName format : String) : Prop :=
  ∃ q ∈ requests g ids, q.typeName = typeName ∧ q.format = format ∧
    ∃ text includes, Answered r g q (.code format text includes)

section

variable {r : Registry} {g : Graph} {ids : List NodeId} {typeName format text : String}

/-- Requests of one type in one format are the same. -/
theorem eq_of_mem_requestsOf {id : NodeId} {q q' : Request} (hq : q ∈ requestsOf g id)
    (hq' : q' ∈ requestsOf g id) (h : q.format = q'.format) : q = q' := by
  unfold requestsOf at hq hq'
  split at hq
  · cases hq
  · split at hq
    · cases hq
    · rename_i hn hpod
      simp only [hn, if_neg hpod] at hq'
      obtain ⟨f, -, rfl⟩ := List.mem_map.1 hq
      obtain ⟨f', -, rfl⟩ := List.mem_map.1 hq'
      obtain rfl : f = f' := h
      rfl

theorem format_of_answered {q : Request} {includes : List String}
    (h : Answered r g q (.code format text includes)) : q.format = format := by cases h; rfl

/-- Code of one type in one format is the same. -/
theorem eq_of_mem_codesOf {id : NodeId} {text' : String}
    (hc : (format, text) ∈ codesOf r g (requestsOf g id))
    (hc' : (format, text') ∈ codesOf r g (requestsOf g id)) : text = text' := by
  obtain ⟨q, hq, includes, hanswered⟩ := mem_codesOf.1 hc
  obtain ⟨q', hq', includes', hanswered'⟩ := mem_codesOf.1 hc'
  have hformat : q.format = q'.format :=
    (format_of_answered hanswered).trans (format_of_answered hanswered').symm
  obtain rfl := eq_of_mem_requestsOf hq hq' hformat
  cases hanswered.unique hanswered'
  rfl

/-- The code of a type in a format is what it comes to when the type requests it. -/
theorem lookup_codesOf {id : NodeId} :
    (codesOf r g (requestsOf g id)).lookup format = some text ↔
      ∃ q ∈ requestsOf g id, ∃ includes, Answered r g q (.code format text includes) := by
  rw [← mem_codesOf (c := (format, text))]
  constructor
  · intro h
    obtain ⟨before, after, hcodes, -⟩ := List.lookup_eq_some_iff.1 h
    rw [hcodes]
    exact List.mem_append_right _ List.mem_cons_self
  · intro hmem
    cases h : (codesOf r g (requestsOf g id)).lookup format with
    | none => simpa using List.lookup_eq_none_iff.1 h _ hmem
    | some other =>
      obtain ⟨before, after, hcodes, -⟩ := List.lookup_eq_some_iff.1 h
      have hother : (format, other) ∈ codesOf r g (requestsOf g id) := by
        rw [hcodes]
        exact List.mem_append_right _ List.mem_cons_self
      rw [eq_of_mem_codesOf hmem hother]

/-- The type that is looked at is the first one of the name that has code. -/
theorem find?_types_eq_some {t : TypeCode} :
    (generate r g ids).types.find? (·.typeName = typeName) = some t ↔
      ∃ before id after, ids = before ++ id :: after ∧
        (∀ other ∈ before, g.nameOf other = some typeName → ¬ HasCode r g other) ∧
        typeCode? r g id = some t ∧ t.typeName = typeName := by
  rw [generate_eq, List.find?_eq_some_iff_append]
  simp only [decide_eq_true_eq, List.filterMap_eq_append_iff, List.filterMap_eq_cons_iff,
    Bool.not_eq_eq_eq_not, Bool.not_true, decide_eq_false_iff_not]
  constructor
  · rintro ⟨hname, _, _, ⟨first, _, rfl, rfl, ⟨skipped, id, after, rfl, hskipped, hid, -⟩⟩, hfirst⟩
    refine ⟨first ++ skipped, id, after, by simp, fun other hother hown hcode => ?_, hid, hname⟩
    have htype := hcode.typeCode? hown
    rcases List.mem_append.1 hother with hother | hother
    · exact hfirst _ (List.mem_filterMap.2 ⟨other, hother, htype⟩) rfl
    · rw [hskipped other hother] at htype
      cases htype
  · rintro ⟨before, id, after, rfl, hbefore, hid, hname⟩
    refine ⟨hname, _, _, ⟨before, _, rfl, rfl, [], id, after, rfl, by simp, hid, rfl⟩, ?_⟩
    intro u hu hown
    obtain ⟨other, hother, htype⟩ := List.mem_filterMap.1 hu
    obtain ⟨hnamed, hcode, -⟩ := typeCode?_eq_some_iff.1 htype
    exact hbefore other hother (hown ▸ hnamed) hcode

/-- **What is found**: the code that the first type of the name with any code has in the format. -/
theorem code?_generate_eq_some :
    (generate r g ids).code? typeName format = some text ↔
      ∃ before id after, ids = before ++ id :: after ∧
        (∀ other ∈ before, g.nameOf other = some typeName → ¬ HasCode r g other) ∧
        g.nameOf id = some typeName ∧
        ∃ q ∈ requestsOf g id, ∃ includes, Answered r g q (.code format text includes) := by
  simp only [FileCode.code?, Option.bind_eq_some_iff, find?_types_eq_some, typeCode?_eq_some_iff]
  constructor
  · rintro ⟨t, ⟨before, id, after, hids, hbefore, ⟨hname, -, hformats⟩, rfl⟩, hlookup⟩
    rw [hformats] at hlookup
    exact ⟨before, id, after, hids, hbefore, hname, lookup_codesOf.1 hlookup⟩
  · rintro ⟨before, id, after, hids, hbefore, hname, q, hq, includes, hanswered⟩
    exact ⟨⟨typeName, codesOf r g (requestsOf g id)⟩, ⟨before, id, after, hids, hbefore,
      ⟨hname, ⟨q, hq, format, text, includes, hanswered⟩, rfl⟩, rfl⟩,
      lookup_codesOf.2 ⟨q, hq, includes, hanswered⟩⟩

/-- Whatever is found was generated. -/
theorem made_of_code? (h : ((generate r g ids).code? typeName format).isSome) :
    Made r g ids typeName format := by
  obtain ⟨text, htext⟩ := Option.isSome_iff_exists.1 h
  obtain ⟨before, id, after, rfl, -, hname, q, hq, includes, hanswered⟩ :=
    code?_generate_eq_some.1 htext
  have hown : q.typeName = typeName :=
    Option.some.inj ((typeName_of_mem_requestsOf hq).symm.trans hname)
  have hrequest : q ∈ requests g (before ++ id :: after) := List.mem_flatMap.2 ⟨id, by simp, hq⟩
  exact ⟨q, hrequest, hown, format_of_answered hanswered, text, includes, hanswered⟩

/-- Of a name that only one type with code has, everything is found. -/
theorem code?_of_made
    (hcount : ((generate r g ids).types.map (·.typeName)).count typeName ≤ 1)
    (h : Made r g ids typeName format) : ((generate r g ids).code? typeName format).isSome := by
  obtain ⟨q, hrequest, rfl, -, text, includes, hanswered⟩ := h
  obtain ⟨id, hid, hq⟩ := List.mem_flatMap.1 hrequest
  obtain ⟨before, after, rfl⟩ := List.append_of_mem hid
  have hname : g.nameOf id = some q.typeName := typeName_of_mem_requestsOf hq
  have hcode : HasCode r g id := ⟨q, hq, format, text, includes, hanswered⟩
  -- a type of the name before this one would be a second one
  have hbefore : ∀ other ∈ before, g.nameOf other = some q.typeName → ¬ HasCode r g other := by
    intro other hother hown hfirst
    have hmem : q.typeName ∈ (before.filterMap (typeCode? r g)).map (·.typeName) :=
      List.mem_map.2 ⟨_, List.mem_filterMap.2 ⟨other, hother, hfirst.typeCode? hown⟩, rfl⟩
    rw [generate_eq] at hcount
    simp only [List.filterMap_append, List.filterMap_cons, hcode.typeCode? hname, List.map_append,
      List.map_cons, List.count_append, List.count_cons_self] at hcount
    have hpos := List.count_pos_iff.2 hmem
    omega
  rw [code?_generate_eq_some.2 ⟨before, id, after, rfl, hbefore, hname, q, hq, includes, hanswered⟩]
  rfl

end

/-- **What is found when code is looked up, and when it is all there is.**  What is found is the
code that the first type of the name with any code has in the format, and nothing is found if that
type has none.  So whatever is found was generated.  What was generated is found if not more than
one type with code has the name; as it is in a tree where the name stands once. -/
theorem code?_generate_complete (r : Registry) (g : Graph) (ids : List NodeId)
    (typeName format : String) :
    let code := generate r g ids
    (∀ text, code.code? typeName format = some text ↔
      ∃ before id after, ids = before ++ id :: after ∧
        (∀ other ∈ before, g.nameOf other = some typeName → ¬ HasCode r g other) ∧
        g.nameOf id = some typeName ∧
        ∃ q ∈ requestsOf g id, ∃ includes, Answered r g q (.code format text includes)) ∧
    ((code.code? typeName format).isSome → Made r g ids typeName format) ∧
    ((code.types.map (·.typeName)).count typeName ≤ 1 →
      ((code.code? typeName format).isSome ↔ Made r g ids typeName format)) ∧
    ((ids.filterMap g.nameOf).count typeName ≤ 1 →
      ((code.code? typeName format).isSome ↔ Made r g ids typeName format)) := by
  intro code
  have hcomplete : (code.types.map (·.typeName)).count typeName ≤ 1 →
      ((code.code? typeName format).isSome ↔ Made r g ids typeName format) :=
    fun hcount => ⟨made_of_code?, code?_of_made hcount⟩
  exact ⟨fun text => code?_generate_eq_some, made_of_code?, hcomplete,
    fun hcount => hcomplete (((typeNames_sublist r g ids).count_le typeName).trans hcount)⟩

/-- Two analyses of one source file, each with a type of the same name. -/
def divided : List Analysis :=
  let box (format : String) : Node := ⟨"Box", .all, [format], [], []⟩
  [.ofNodes ⟨"src/Box.h"⟩ [box "A"] [], .ofNodes ⟨"src/Box.h"⟩ [box "B"] []]

theorem code?_generate_complete_divided :
    (([1] : List NodeId).filterMap (mergeAll divided).graph.nameOf).count "Box" ≤ 1 ∧
    ((generate untidy (mergeAll divided).graph [1]).code? "Box" "B").isSome ∧
    (generate untidy (mergeAll divided).graph [0, 1]).code? "Box" "A" =
      some (continued "x \\\n\n// y\r\nz") := by
  have hcount :
      (([1] : List NodeId).filterMap (mergeAll divided).graph.nameOf).count "Box" ≤ 1 := by
    decide +kernel
  obtain ⟨-, -, -, hfound⟩ :=
    code?_generate_complete untidy (mergeAll divided).graph [1] "Box" "B"
  obtain ⟨hfirst, -, -, -⟩ :=
    code?_generate_complete untidy (mergeAll divided).graph [0, 1] "Box" "A"
  refine ⟨hcount, (hfound hcount).2 ?_, (hfirst _).2 ?_⟩
  · exact ⟨⟨1, "Box", "B"⟩, List.mem_cons_self, rfl, rfl, _, _, .written rfl rfl⟩
  · exact ⟨[], 0, [1], rfl, by simp, rfl, ⟨0, "Box", "A"⟩, List.mem_cons_self, _,
      .written rfl rfl⟩

/-- **Code that is not found**: that of the second type of a name, in a format which the first one
has no code in. -/
theorem code?_of_divided :
    (mergeAll divided).tree? ⟨"src/Box.h"⟩ = some [0, 1] ∧
    Made untidy (mergeAll divided).graph [0, 1] "Box" "B" ∧
    (generate untidy (mergeAll divided).graph [0, 1]).code? "Box" "B" = none := by
  refine ⟨by decide +kernel, ?_, by decide +kernel⟩
  exact ⟨⟨1, "Box", "B"⟩, List.mem_cons_of_mem _ List.mem_cons_self, rfl, rfl, _, _,
    .written rfl rfl⟩

end Header
end Marshal
