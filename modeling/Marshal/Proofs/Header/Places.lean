import Mathlib.Data.List.Basic
import Marshal.Header.Render

/-!
# Which source files share a header

A header is named after its source file without the extension.  Files of one directory that differ
in nothing else therefore have one header, and with a common directory so do all files of one stem.

## Main definitions

* `headerDirectory` — the directory of a header.

## Main results

* `headerPath?_eq_iff` — the source files that share a header.
-/

namespace Marshal

namespace Path

/-! ### Names without slashes -/

theorem slash_notMem_of_mem_pieces {cs piece : List Char} (h : piece ∈ pieces cs) : '/' ∉ piece := by
  induction cs generalizing piece with
  | nil =>
    obtain rfl : piece = [] := by simpa [pieces] using h
    exact List.not_mem_nil
  | cons c cs ih =>
    unfold pieces at h
    by_cases hc : c = '/'
    · rw [if_pos hc] at h
      rcases List.mem_cons.1 h with rfl | h
      · exact List.not_mem_nil
      · exact ih h
    · rw [if_neg hc] at h
      cases hcs : pieces cs with
      | nil => exact absurd hcs (pieces_ne_nil cs)
      | cons first rest =>
        rw [hcs] at h ih
        rcases List.mem_cons.1 h with rfl | h
        · intro hmem
          rcases List.mem_cons.1 hmem with hslash | hmem
          · exact hc hslash.symm
          · exact ih List.mem_cons_self hmem
        · exact ih (List.mem_cons_of_mem first h)

theorem splitExtension_subset (name : List Char) : (splitExtension name).1 ⊆ name := by
  unfold splitExtension
  dsimp only
  split
  · exact List.Subset.refl _
  · exact List.take_subset _ _

/-- What stands before and after the last slash of a text is determined by it. -/
theorem append_slash_inj {before before' after after' : List Char} (h : '/' ∉ after)
    (h' : '/' ∉ after') (heq : before ++ '/' :: after = before' ++ '/' :: after') :
    before = before' ∧ after = after' := by
  rcases List.append_eq_append_iff.1 heq with ⟨between, hbefore, hafter⟩ | ⟨between, hbefore, hafter⟩
  · cases between with
    | nil => exact ⟨by simpa using hbefore.symm, (List.cons.inj hafter).2⟩
    | cons c between =>
      rw [(List.cons.inj hafter).2] at h
      exact absurd (List.mem_append_right between List.mem_cons_self) h
  · cases between with
    | nil => exact ⟨by simpa using hbefore, (List.cons.inj hafter).2.symm⟩
    | cons c between =>
      rw [(List.cons.inj hafter).2] at h'
      exact absurd (List.mem_append_right between List.mem_cons_self) h'

end Path

namespace FilePath

theorem slash_notMem_of_name_mem {p : FilePath} {n : String} (h : .name n ∈ p.components) :
    '/' ∉ n.toList := by
  have hpiece : ∀ piece ∈ Path.pieces p.text.toList, .name n ∈ Component.ofPiece piece →
      '/' ∉ n.toList := by
    intro piece hpiece hname
    have hn : n = String.ofList piece := by
      unfold Component.ofPiece at hname
      split at hname
      · cases hname
      · split at hname
        · simp at hname
        · simpa using hname
    rw [hn, String.toList_ofList]
    exact Path.slash_notMem_of_mem_pieces hpiece
  unfold components at h
  cases hpieces : Path.pieces p.text.toList with
  | nil => exact absurd hpieces (Path.pieces_ne_nil _)
  | cons first rest =>
    rw [hpieces] at h hpiece
    rcases List.mem_append.1 h with hfirst | hrest
    · split at hfirst
      · simp at hfirst
      · split at hfirst
        · simp at hfirst
        · exact hpiece first List.mem_cons_self hfirst
    · obtain ⟨piece, hmem, hname⟩ := List.mem_flatMap.1 hrest
      exact hpiece piece (List.mem_cons_of_mem first hmem) hname

/-- There is no slash in a stem. -/
theorem slash_notMem_of_stem {p : FilePath} {stem : String} (h : p.stem = some stem) :
    '/' ∉ stem.toList := by
  obtain ⟨name, hname, rfl⟩ := Option.map_eq_some_iff.1 h
  have hmem : .name name ∈ p.components := by
    unfold fileName at hname
    split at hname
    · rename_i hlast
      obtain rfl := Option.some.inj hname
      exact List.mem_of_getLast? hlast
    · cases hname
  rw [String.toList_ofList]
  exact fun hslash => slash_notMem_of_name_mem hmem (Path.splitExtension_subset _ hslash)

theorem isAbsolute_of_slash_notMem {p : FilePath} (h : '/' ∉ p.text.toList) :
    p.isAbsolute = false := by
  unfold isAbsolute
  cases hp : p.text.toList with
  | nil => rfl
  | cons c cs =>
    rw [hp] at h
    simp only [List.head?_cons, Option.some.injEq, decide_eq_false_iff_not]
    rintro rfl
    exact h List.mem_cons_self

/-- From one path, different names lead to different paths. -/
theorem join_left_inj {p q q' : FilePath} (h : '/' ∉ q.text.toList) (h' : '/' ∉ q'.text.toList) :
    p.join q = p.join q' ↔ q = q' := by
  refine ⟨fun heq => ?_, fun heq => heq ▸ rfl⟩
  simp only [join, isAbsolute_of_slash_notMem h, isAbsolute_of_slash_notMem h', Bool.false_eq_true,
    if_false] at heq
  split at heq
  · obtain ⟨text⟩ := q
    obtain ⟨text'⟩ := q'
    simpa using heq
  · obtain ⟨text⟩ := q
    obtain ⟨text'⟩ := q'
    simpa using heq

end FilePath

namespace Header

/-! ### The place of a header -/

/-- The directory of a header. -/
def headerDirectory (outputDirectory : Option FilePath) (source : FilePath) : FilePath :=
  outputDirectory.getD ((source.parent.getD ⟨""⟩).join ⟨"generated"⟩)

variable {outputDirectory : Option FilePath} {source source' header : FilePath}

theorem headerPath?_eq_some_iff :
    headerPath? outputDirectory source = some header ↔ ∃ stem, source.stem = some stem ∧ stem ≠ "" ∧
      (headerDirectory outputDirectory source).join ⟨stem ++ ".generated.h"⟩ = header := by
  unfold headerPath? headerDirectory
  cases source.stem with
  | none => simp
  | some stem =>
    by_cases hstem : stem = ""
    · simp [hstem]
    · simp [hstem]

theorem toList_join_generated_join (p : FilePath) {q : FilePath} (h : '/' ∉ q.text.toList) :
    ((p.join ⟨"generated"⟩).join q).text.toList =
      (p.join ⟨"generated"⟩).text.toList ++ '/' :: q.text.toList := by
  have hlast : (p.join ⟨"generated"⟩).text.toList.getLast? = some 'd' := by
    unfold FilePath.join
    rw [if_neg (by decide)]
    split
    · simp
    · simp
  have hne : (p.join ⟨"generated"⟩).text ≠ "" := by
    intro hempty
    rw [hempty] at hlast
    cases hlast
  rw [FilePath.join, FilePath.isAbsolute_of_slash_notMem h, if_neg Bool.false_ne_true, if_neg]
  · simp
  · simp [hlast, hne]

theorem slash_notMem_headerName {stem : String} (h : '/' ∉ stem.toList) :
    '/' ∉ (stem ++ ".generated.h").toList := by
  simp [h]

/-- **The source files that share a header** are those of one stem, and if there is no common
directory, beside one another. -/
theorem headerPath?_eq_iff (h : headerPath? outputDirectory source = some header) :
    headerPath? outputDirectory source' = some header ↔ source'.stem = source.stem ∧
      headerDirectory outputDirectory source' = headerDirectory outputDirectory source := by
  obtain ⟨stem, hstem, hne, rfl⟩ := headerPath?_eq_some_iff.1 h
  rw [headerPath?_eq_some_iff]
  constructor
  · rintro ⟨stem', hstem', -, hjoin⟩
    have hslash := slash_notMem_headerName (FilePath.slash_notMem_of_stem hstem)
    have hslash' := slash_notMem_headerName (FilePath.slash_notMem_of_stem hstem')
    have hparts : headerDirectory outputDirectory source' = headerDirectory outputDirectory source ∧
        stem' ++ ".generated.h" = stem ++ ".generated.h" := by
      cases outputDirectory with
      | some directory =>
        have hname := (FilePath.join_left_inj hslash' hslash).1 hjoin
        exact ⟨rfl, congrArg FilePath.text hname⟩
      | none =>
        have htext := congrArg (fun p : FilePath => p.text.toList) hjoin
        dsimp only [headerDirectory, Option.getD_none] at htext ⊢
        rw [toList_join_generated_join _ hslash', toList_join_generated_join _ hslash] at htext
        obtain ⟨hbefore, hafter⟩ := Path.append_slash_inj hslash' hslash htext
        exact ⟨congrArg FilePath.mk (String.toList_inj.1 hbefore), String.toList_inj.1 hafter⟩
    obtain ⟨hdirectory, hname⟩ := hparts
    obtain rfl : stem' = stem := by simpa using hname
    exact ⟨hstem'.trans hstem.symm, hdirectory⟩
  · rintro ⟨hsame, hdirectory⟩
    exact ⟨stem, hsame.trans hstem, hne, by rw [hdirectory]⟩

end Header
end Marshal
