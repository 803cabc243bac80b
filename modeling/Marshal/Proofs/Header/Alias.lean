import Marshal.Proofs.Header.Names

/-!
# The macro that stands for the only type

A header has a second macro for a type if no other type of the file has code.  So it depends on
what the plugins give: it is there in a file with one type if this type has code, but also in a file
with several types if all of them but one have none, be it that they request nothing or that
whatever they request comes to an issue.

## Main definitions

* `aliasLine` — the line that lets the second macro stand for a type.

## Main results

* `aliasLine_mem_iff` — when a header has that line.
* `alias_render` — which types of a file the second macro depends on.
-/

namespace Marshal
namespace Header

open Schema Plugin

/-- The line that lets a second macro stand for the macro of a type. -/
def aliasLine (typeName : String) : List Char :=
  ("#define GENERATED_SERIALIZATION_BODY() " ++ bodyMacro typeName ++ "()").toList

theorem aliases_singleton (t : Produced) : aliases [t] = [aliasLine t.name] := rfl

theorem startsMacro_aliasLine (typeName : String) : startsMacro (aliasLine typeName) = true := by
  simp [startsMacro, aliasLine]

theorem aliasLine_inj {a b : String} : aliasLine a = aliasLine b ↔ bodyMacro a = bodyMacro b := by
  refine ⟨fun h => String.toList_injective ?_, fun h => by rw [aliasLine, aliasLine, h]⟩
  simpa [aliasLine] using h

theorem slash_notMem_aliasLine (typeName : String) : '/' ∉ aliasLine typeName := by
  intro h
  rw [aliasLine, String.toList_append, String.toList_append, List.mem_append,
    List.mem_append] at h
  rcases h with (h | h) | h
  · exact absurd h (by decide)
  · exact absurd (isMacroChar_bodyMacro typeName '/' h) (by decide)
  · exact absurd h (by decide)

section

variable {r : Registry} {g : Graph} {ids : List NodeId}

theorem codes_ne_nil_of_produced {t : Produced} (ht : t ∈ produced r g ids) : t.codes ≠ [] := by
  obtain ⟨id, -, ht⟩ := List.mem_filterMap.1 ht
  have htype : typeCode? r g id = some t.typeCode := by rw [typeCode?_eq, ht, Option.map_some]
  obtain ⟨-, hcode, hformats⟩ := typeCode?_eq_some_iff.1 htype
  intro hnil
  refine hasCode_iff.1 hcode ?_
  rw [← hformats, Produced.typeCode, hnil, List.map_nil]

/-- The macro of a type names a format, which the second macro does not. -/
theorem macroLine_ne_aliasLine {t : Produced} (ht : t ∈ produced r g ids) (typeName : String) :
    t.macroLine ≠ aliasLine typeName := by
  intro h
  obtain ⟨c, codes, hcodes⟩ := List.exists_cons_of_ne_nil (codes_ne_nil_of_produced ht)
  have hslash : '/' ∈ t.macroLine := by simp [Produced.macroLine, hcodes]
  rw [h] at hslash
  exact slash_notMem_aliasLine typeName hslash

theorem aliasLine_mem_aliases {types : List Produced} {typeName : String} :
    aliasLine typeName ∈ aliases types ↔
      ∃ t, types = [t] ∧ bodyMacro t.name = bodyMacro typeName := by
  rcases types with - | ⟨only, - | ⟨second, rest⟩⟩
  · simp [aliases]
  · rw [aliases_singleton, List.mem_singleton, aliasLine_inj]
    constructor
    · exact fun h => ⟨only, rfl, h.symm⟩
    · rintro ⟨t, ht, h⟩
      obtain rfl := List.singleton_injective ht
      exact h.symm
  · simp [aliases]

/-- Of some types just one has code if all before it and all after it have none. -/
theorem produced_eq_singleton_iff {t : Produced} :
    produced r g ids = [t] ↔ ∃ before id after, ids = before ++ id :: after ∧
      produced? r g id = some t ∧ ∀ other ∈ before ++ after, ¬ HasCode r g other := by
  simp only [produced, List.filterMap_eq_cons_iff, List.filterMap_eq_nil_iff, produced?_eq_none_iff,
    List.forall_mem_append]
  constructor
  · rintro ⟨before, id, after, hids, hbefore, hid, hafter⟩
    exact ⟨before, id, after, hids, hid, hbefore, hafter⟩
  · rintro ⟨before, id, after, hids, hid, hbefore, hafter⟩
    exact ⟨before, id, after, hids, hbefore, hid, hafter⟩

theorem exists_produced?_iff {id : NodeId} {typeName : String} :
    (∃ t, produced? r g id = some t ∧ bodyMacro t.name = bodyMacro typeName) ↔
      HasCode r g id ∧ (g.nameOf id).map bodyMacro = some (bodyMacro typeName) := by
  constructor
  · rintro ⟨t, ht, hname⟩
    have hcode : HasCode r g id := by
      by_contra hnone
      rw [produced?_eq_none_iff.2 hnone] at ht
      cases ht
    exact ⟨hcode, by rw [nameOf_of_produced? ht, Option.map_some, hname]⟩
  · rintro ⟨hcode, hname⟩
    cases ht : produced? r g id with
    | none => exact absurd hcode (produced?_eq_none_iff.1 ht)
    | some t =>
      rw [nameOf_of_produced? ht, Option.map_some] at hname
      exact ⟨t, rfl, Option.some.inj hname⟩

/-- **When a header has a second macro for a type**: if it is the only one with code. -/
theorem aliasLine_mem_iff {source : FilePath} (hsource : '\n' ∉ (sourceName source).toList)
    (hformats : ∀ e ∈ r.entries, '\n' ∉ e.name.toList)
    (hincludes : ∀ e ∈ r.entries, ∀ i ∈ e.plugin.includes,
      '\n' ∉ i.toList ∧ i.toList.getLast? ≠ some '\\') (typeName : String) :
    aliasLine typeName ∈ logicalLines (render source (generate r g ids)) ↔
      ∃ before id after, ids = before ++ id :: after ∧ HasCode r g id ∧
        (g.nameOf id).map bodyMacro = some (bodyMacro typeName) ∧
        ∀ other ∈ before ++ after, ¬ HasCode r g other := by
  have hfilter : aliasLine typeName ∈ logicalLines (render source (generate r g ids)) ↔
      aliasLine typeName ∈
        (logicalLines (render source (generate r g ids))).filter startsMacro := by
    rw [List.mem_filter, and_iff_left (startsMacro_aliasLine typeName)]
  have hmacro : aliasLine typeName ∉ (produced r g ids).map Produced.macroLine := by
    intro h
    obtain ⟨t, ht, hline⟩ := List.mem_map.1 h
    exact macroLine_ne_aliasLine ht typeName hline
  rw [hfilter, filter_startsMacro_generate hsource hformats hincludes, List.mem_append,
    or_iff_right hmacro, aliasLine_mem_aliases]
  constructor
  · rintro ⟨t, htypes, hname⟩
    obtain ⟨before, id, after, hids, hid, hothers⟩ := produced_eq_singleton_iff.1 htypes
    obtain ⟨hcode, hown⟩ := exists_produced?_iff.1 ⟨t, hid, hname⟩
    exact ⟨before, id, after, hids, hcode, hown, hothers⟩
  · rintro ⟨before, id, after, hids, hcode, hown, hothers⟩
    obtain ⟨t, hid, hname⟩ := exists_produced?_iff.2 ⟨hcode, hown⟩
    exact ⟨t, produced_eq_singleton_iff.2 ⟨before, id, after, hids, hid, hothers⟩, hname⟩

/-- An issue that a request comes to is one of the issues of the file. -/
theorem mem_issues_generate {id : NodeId} (hid : id ∈ ids) {q : Request} (hq : q ∈ requestsOf g id)
    {i : Issue} (hissue : Answered r g q (.issue i)) : i ∈ (generate r g ids).issues := by
  rw [generate_eq]
  refine List.mem_filterMap.2 ⟨q, List.mem_flatMap.2 ⟨id, hid, hq⟩, ?_⟩
  rw [(answered_answer r g q).unique hissue]
  rfl

/-- If all types have code, the only one is that of a file with a single type. -/
theorem exists_only_iff (h : ∀ id ∈ ids, HasCode r g id) :
    (∃ before id after, ids = before ++ id :: after ∧
      ∀ other ∈ before ++ after, ¬ HasCode r g other) ↔ ids.length = 1 := by
  constructor
  · rintro ⟨before, id, after, rfl, hothers⟩
    have hnone : before ++ after = [] := by
      refine List.eq_nil_iff_forall_not_mem.2 fun other hother => hothers other hother (h other ?_)
      rcases List.mem_append.1 hother with hother | hother
      · exact List.mem_append_left _ hother
      · exact List.mem_append_right _ (List.mem_cons_of_mem _ hother)
    obtain ⟨rfl, rfl⟩ := List.append_eq_nil_iff.1 hnone
    rfl
  · intro hlength
    obtain ⟨id, rfl⟩ := List.length_eq_one_iff.1 hlength
    exact ⟨[], id, [], rfl, by simp⟩

end

/-- **Which types the second macro of a header depends on.**  Let no format and nothing that is
included hold a line end, nor the name of the source file, and let nothing that is included end in a
backslash.  A header has a second macro for a type exactly if this type has code and no other type
of the file has any.  A type has none if all that it requests, if anything, is among the issues of
the file.  Where all types have code, there is a second macro exactly if the file has a single
type. -/
theorem alias_render (r : Registry) (g : Graph) (ids : List NodeId) (source : FilePath)
    (hsource : '\n' ∉ (sourceName source).toList)
    (hformats : ∀ e ∈ r.entries, '\n' ∉ e.name.toList)
    (hincludes : ∀ e ∈ r.entries, ∀ i ∈ e.plugin.includes,
      '\n' ∉ i.toList ∧ i.toList.getLast? ≠ some '\\') :
    let code := generate r g ids
    let lines := logicalLines (render source code)
    (∀ typeName, aliasLine typeName ∈ lines ↔
      ∃ before id after, ids = before ++ id :: after ∧ HasCode r g id ∧
        (g.nameOf id).map bodyMacro = some (bodyMacro typeName) ∧
        ∀ other ∈ before ++ after, ¬ HasCode r g other) ∧
    (∀ id ∈ ids, ¬ HasCode r g id ↔
      ∀ q ∈ requestsOf g id, ∃ i ∈ code.issues, Answered r g q (.issue i)) ∧
    ((∀ id ∈ ids, HasCode r g id) →
      ((∃ typeName, aliasLine typeName ∈ lines) ↔ ids.length = 1)) := by
  intro code lines
  have hline : ∀ typeName, aliasLine typeName ∈ lines ↔
      ∃ before id after, ids = before ++ id :: after ∧ HasCode r g id ∧
        (g.nameOf id).map bodyMacro = some (bodyMacro typeName) ∧
        ∀ other ∈ before ++ after, ¬ HasCode r g other :=
    aliasLine_mem_iff hsource hformats hincludes
  refine ⟨hline, fun id hid => ?_, fun hall => ?_⟩
  · rw [not_hasCode_iff]
    refine forall₂_congr fun q hq => exists_congr fun i => ?_
    exact ⟨fun h => ⟨mem_issues_generate hid hq h, h⟩, fun h => h.2⟩
  · rw [← exists_only_iff hall]
    constructor
    · rintro ⟨typeName, h⟩
      obtain ⟨before, id, after, hids, -, -, hothers⟩ := (hline typeName).1 h
      exact ⟨before, id, after, hids, hothers⟩
    · rintro ⟨before, id, after, hids, hothers⟩
      have hcode : HasCode r g id := hall id (hids ▸ by simp)
      obtain ⟨q, hq, -⟩ := hcode
      refine ⟨q.typeName, (hline _).2
        ⟨before, id, after, hids, hall id (hids ▸ by simp), ?_, hothers⟩⟩
      rw [typeName_of_mem_requestsOf hq, Option.map_some]

theorem alias_render_untidy :
    ('\n' ∉ (sourceName ⟨"src/T.h"⟩).toList ∧ (∀ e ∈ untidy.entries, '\n' ∉ e.name.toList) ∧
      ∀ e ∈ untidy.entries, ∀ i ∈ e.plugin.includes,
        '\n' ∉ i.toList ∧ i.toList.getLast? ≠ some '\\') ∧
    aliasLine "s::T" ∈ logicalLines (render ⟨"src/T.h"⟩ (generate untidy askers [0])) ∧
    aliasLine "s::T" ∉ logicalLines (render ⟨"src/T.h"⟩ (generate untidy askers [0, 0])) ∧
    ¬ HasCode untidy askers 1 := by
  have hsource : '\n' ∉ (sourceName ⟨"src/T.h"⟩).toList := by decide
  have hformats : ∀ e ∈ untidy.entries, '\n' ∉ e.name.toList := by decide
  have hincludes : ∀ e ∈ untidy.entries, ∀ i ∈ e.plugin.includes,
      '\n' ∉ i.toList ∧ i.toList.getLast? ≠ some '\\' := by decide
  have hcode : HasCode untidy askers 0 := hasCode_iff.2 (by decide +kernel)
  obtain ⟨hline, -, -⟩ := alias_render untidy askers [0] ⟨"src/T.h"⟩ hsource hformats hincludes
  obtain ⟨-, -, htwice⟩ := alias_render untidy askers [0, 0] ⟨"src/T.h"⟩ hsource hformats hincludes
  obtain ⟨-, hissues, -⟩ := alias_render untidy askers [1] ⟨"src/T.h"⟩ hsource hformats hincludes
  refine ⟨⟨hsource, hformats, hincludes⟩, (hline _).2 ⟨[], 0, [], rfl, hcode, rfl, by simp⟩,
    fun h => absurd ((htwice (by simpa using hcode)).1 ⟨_, h⟩) (by decide), ?_⟩
  refine (hissues 1 List.mem_cons_self).2 fun q hq => ?_
  obtain rfl : q = ⟨1, "U", "C"⟩ := List.mem_singleton.1 hq
  exact ⟨.missingPlugin "U" "C", by decide +kernel, .missing rfl⟩

/-- **A second macro in a file with two types**, one of which asks for a format without plugin: it
stands for the other one. -/
theorem alias_of_two_types :
    [0, 1].filterMap askers.nameOf = ["s::T", "U"] ∧
    requestsOf askers 1 = [⟨1, "U", "C"⟩] ∧ untidy.get? "C" = none ∧
    aliasLine "s::T" ∈ logicalLines (render ⟨"src/T.h"⟩ (generate untidy askers [0, 1])) := by
  have hcode : HasCode untidy askers 0 := hasCode_iff.2 (by decide +kernel)
  have hnone : ¬ HasCode untidy askers 1 := fun h => hasCode_iff.1 h (by decide +kernel)
  refine ⟨by decide, rfl, rfl, (aliasLine_mem_iff (by decide) (by decide) (by decide) _).2 ?_⟩
  exact ⟨[], 0, [1], rfl, hcode, rfl, by simpa using hnone⟩

end Header
end Marshal
