import Marshal.Header.Render
import Marshal.Proofs.Header.Joined
import Marshal.Proofs.Header.Produced

/-!
# Every macro is one line

The macro of a type takes up several lines of a header, each of which ends in a backslash, so that
it is one line when continued lines are joined.  No other line of a header ends in one.  What is
proved holds of whatever text the plugins give.

A header is made of single lines, and of a text that continues for each type.

## Main definitions

* `Produced.block`, `Produced.macroLine` — the macro of a type, before and after lines are joined.
* `headLines`, `footLines` — the lines before the first type, and those after the last.
* `aliases` — the line that stands for the only type, if there is just one.

## Main results

* `toList_render` — what a header is made of.
* `Produced.continues_block`, `Produced.join_block` — the block of a type continues.
* `physicalLines_render`, `logicalLines_render` — the lines of a header.
* `filter_startsMacro_generate` — the lines of generated code that start a macro.
* `macros_render` — every macro is one line.
-/

namespace Marshal
namespace Header

open Schema Plugin

/-! ### The lines of a header -/

/-- The block of a type: its macro, every line continued. -/
def Produced.block (t : Produced) : String :=
  "#define " ++ bodyMacro t.name ++ "() \\\n" ++
    String.join (t.codes.map fun (format, text) =>
      "/* Format: " ++ format ++ " */ \\\n" ++ continued text)

/-- The lines of the block of a type. -/
def Produced.blockLines (t : Produced) : List (List Char) := (physicalLines t.block).dropLast

/-- The macro of a type as one line. -/
def Produced.macroLine (t : Produced) : List Char :=
  ("#define " ++ bodyMacro t.name ++ "() ").toList ++ t.codes.flatMap fun (format, text) =>
    ("/* Format: " ++ format ++ " */ ").toList ++ joinContinued (continued text).toList

/-- The lines before the first type. -/
def headLines (source : FilePath) (includes : List String) : List (List Char) :=
  ("// Generated by genserialize from " ++ sourceName source ++ ". Do not edit.").toList ::
    "#pragma once".toList ::
    if includes = [] then [] else [] :: includes.map fun i => ("#include " ++ i).toList

/-- The line that stands for the only type. -/
def aliases : List Produced → List (List Char)
  | [only] => [("#define GENERATED_SERIALIZATION_BODY() " ++ bodyMacro only.name ++ "()").toList]
  | _ => []

/-- The lines after the last type. -/
def footLines (types : List Produced) : List (List Char) :=
  (aliases types).flatMap fun l => [[], l]

/-- Whether a line starts a macro. -/
def startsMacro (l : List Char) : Bool := "#define ".toList.isPrefixOf l

theorem toList_render (source : FilePath) {c : FileCode} {types : List Produced}
    (h : c.types = types.map Produced.typeCode) :
    (render source c).toList = (headLines source c.includes).flatMap (· ++ ['\n']) ++
      ((types.flatMap fun t => '\n' :: t.block.toList) ++
        (footLines types).flatMap (· ++ ['\n'])) := by
  have hhead : ("// Generated by genserialize from " ++ sourceName source ++
      ". Do not edit.\n#pragma once\n" ++ renderIncludes c).toList =
      (headLines source c.includes).flatMap (· ++ ['\n']) := by
    unfold renderIncludes headLines
    cases c.includes with
    | nil => simp
    | cons i is => simp [String.toList_join, List.flatMap_map]
  have htype : ∀ t : Produced, renderType t.typeCode = "\n" ++ t.block := by
    intro t
    simp only [renderType, Produced.typeCode, Produced.block, List.map_map, ← String.append_assoc]
    rfl
  have htypes : (String.join (c.types.map renderType)).toList =
      types.flatMap fun t => '\n' :: t.block.toList := by
    rw [h, String.toList_join, List.map_map, List.flatMap_map]
    refine List.flatMap_congr fun t _ => ?_
    rw [Function.comp_apply, htype, String.toList_append]
    rfl
  have halias : (renderAlias c).toList = (footLines types).flatMap (· ++ ['\n']) := by
    unfold renderAlias footLines
    rw [h]
    rcases types with - | ⟨only, - | ⟨second, rest⟩⟩
    · rfl
    · simp [aliases, Produced.typeCode]
    · rfl
  unfold render
  rw [String.toList_append, String.toList_append, hhead, htypes, halias]
  rw [List.append_assoc]

theorem isMacroChar_of_mem_macroChars {cs : List Char} {c : Char} (h : c ∈ macroChars cs) :
    isMacroChar c := by
  induction cs using macroChars.induct with
  | case1 cs ih =>
    rw [macroChars] at h
    rcases List.mem_cons.1 h with rfl | h
    · decide
    · exact ih h
  | case2 d cs hcolons ih =>
    rw [macroChars] at h
    · rcases List.mem_cons.1 h with rfl | h
      · split
        · assumption
        · decide
      · exact ih h
    · exact hcolons
  | case3 => exact absurd h List.not_mem_nil

theorem newline_notMem_bodyMacro (name : String) : '\n' ∉ (bodyMacro name).toList := by
  intro h
  rw [bodyMacro, String.toList_append, String.toList_ofList] at h
  rcases List.mem_append.1 h with h | h
  · exact absurd (isMacroChar_of_mem_macroChars h) (by decide)
  · exact absurd h (by decide)

/-- The first line of a block, before it is continued. -/
def Produced.firstLine (t : Produced) : List Char := ("#define " ++ bodyMacro t.name ++ "() ").toList

/-- The line that says which format the code after it is in, before it is continued. -/
def markerLine (format : String) : List Char := ("/* Format: " ++ format ++ " */ ").toList

theorem Produced.toList_block (t : Produced) : t.block.toList =
    (t.firstLine ++ ['\\', '\n']) ++ t.codes.flatMap fun c =>
      (markerLine c.1 ++ ['\\', '\n']) ++ (continued c.2).toList := by
  simp [block, firstLine, markerLine, String.toList_join, List.flatMap_map]

section

variable {t : Produced}

theorem Produced.newline_notMem_firstLine : '\n' ∉ t.firstLine := by
  simp [firstLine, newline_notMem_bodyMacro]

theorem newline_notMem_markerLine {format : String} (h : '\n' ∉ format.toList) :
    '\n' ∉ markerLine format := by
  simp [markerLine, h]

/-- **The block of a type continues.** -/
theorem Produced.continues_block (h : ∀ c ∈ t.codes, '\n' ∉ c.1.toList) :
    Continues t.block.toList := by
  rw [t.toList_block]
  refine (Continues.line newline_notMem_firstLine).append (.flatMap fun c hc => ?_)
  exact (Continues.line (newline_notMem_markerLine (h c hc))).append (continues_continued c.2)

/-- Joined, the block of a type is its macro. -/
theorem Produced.join_block (h : ∀ c ∈ t.codes, '\n' ∉ c.1.toList) :
    joinContinued t.block.toList = t.macroLine := by
  have hmarked : ∀ c ∈ t.codes, Continues (markerLine c.1 ++ ['\\', '\n']) :=
    fun c hc => .line (newline_notMem_markerLine (h c hc))
  have hcodes : ∀ c ∈ t.codes,
      Continues ((markerLine c.1 ++ ['\\', '\n']) ++ (continued c.2).toList) :=
    fun c hc => (hmarked c hc).append (continues_continued c.2)
  rw [t.toList_block, (Continues.line newline_notMem_firstLine).join_append,
    Continues.join_line newline_notMem_firstLine, Continues.join_flatMap hcodes]
  refine congrArg (t.firstLine ++ ·) (List.flatMap_congr fun c hc => ?_)
  rw [(hmarked c hc).join_append, Continues.join_line (newline_notMem_markerLine (h c hc))]
  rfl

theorem Produced.newline_notMem_macroLine (h : ∀ c ∈ t.codes, '\n' ∉ c.1.toList) :
    '\n' ∉ t.macroLine := by
  rw [← Produced.join_block h]
  exact (Produced.continues_block h).newline_notMem_join

end

section

variable {types : List Produced} {source : FilePath} {includes : List String}

theorem mem_headLines {l : List Char} (h : l ∈ headLines source includes) :
    l = ("// Generated by genserialize from " ++ sourceName source ++ ". Do not edit.").toList ∨
      l = "#pragma once".toList ∨ l = [] ∨ ∃ i ∈ includes, l = ("#include " ++ i).toList := by
  unfold headLines at h
  rcases List.mem_cons.1 h with h | h
  · exact .inl h
  · rcases List.mem_cons.1 h with h | h
    · exact .inr (.inl h)
    · split at h
      · exact absurd h List.not_mem_nil
      · rcases List.mem_cons.1 h with h | h
        · exact .inr (.inr (.inl h))
        · obtain ⟨i, hi, rfl⟩ := List.mem_map.1 h
          exact .inr (.inr (.inr ⟨i, hi, rfl⟩))

/-- No line before the first type goes on in the next. -/
theorem ends_of_mem_headLines (hsource : '\n' ∉ (sourceName source).toList)
    (hincludes : ∀ i ∈ includes, Ends i.toList) {l : List Char}
    (h : l ∈ headLines source includes) : Ends l := by
  rcases mem_headLines h with rfl | rfl | rfl | ⟨i, hi, rfl⟩
  · refine ⟨by simp [hsource], ?_⟩
    rw [String.toList_append, List.getLast?_append,
      show ". Do not edit.".toList.getLast? = some '.' by decide, Option.some_or]
    decide
  · exact ⟨by decide, by decide⟩
  · exact ends_nil
  · obtain ⟨hnew, hlast⟩ := hincludes i hi
    refine ⟨by simp [hnew], ?_⟩
    rw [String.toList_append, List.getLast?_append]
    cases hi : i.toList.getLast? with
    | none => decide
    | some c =>
      rw [Option.some_or, ← hi]
      exact hlast

theorem filter_startsMacro_headLines :
    (headLines source includes).filter startsMacro = [] := by
  rw [List.filter_eq_nil_iff]
  intro l hl
  rcases mem_headLines hl with rfl | rfl | rfl | ⟨i, -, rfl⟩
  · simp [startsMacro]
  · decide
  · decide
  · simp [startsMacro]

end

section

variable {types : List Produced}

theorem ends_of_mem_aliases {l : List Char} (h : l ∈ aliases types) : Ends l := by
  rcases types with - | ⟨only, - | ⟨second, rest⟩⟩
  · cases h
  · obtain rfl := List.mem_singleton.1 h
    refine ⟨by simp [newline_notMem_bodyMacro], ?_⟩
    rw [String.toList_append, List.getLast?_append,
      show "()".toList.getLast? = some ')' by decide, Option.some_or]
    decide
  · cases h

/-- No line after the last type goes on in the next. -/
theorem ends_of_mem_footLines {l : List Char} (h : l ∈ footLines types) : Ends l := by
  obtain ⟨m, hm, hl⟩ := List.mem_flatMap.1 h
  rcases List.mem_cons.1 hl with rfl | hl
  · exact ends_nil
  · obtain rfl := List.mem_singleton.1 hl
    exact ends_of_mem_aliases hm

theorem startsMacro_aliases : ∀ l ∈ aliases types, startsMacro l = true := by
  rcases types with - | ⟨only, - | ⟨second, rest⟩⟩
  · simp [aliases]
  · simp [aliases, startsMacro]
  · simp [aliases]

theorem Produced.startsMacro_macroLine (t : Produced) : startsMacro t.macroLine = true := by
  simp [startsMacro, macroLine]

/-- The lines of the types, with the empty line before each, come before those of what follows. -/
theorem splitOn_blocks (h : ∀ t ∈ types, Continues t.block.toList) (rest : List Char) :
    ((types.flatMap fun t => '\n' :: t.block.toList) ++ rest).splitOn '\n' =
      (types.flatMap fun t => [] :: t.blockLines) ++ rest.splitOn '\n' := by
  induction types with
  | nil => rfl
  | cons t types ih =>
    obtain ⟨ht, htypes⟩ := List.forall_mem_cons.1 h
    have hempty := splitOn_line (l := []) List.not_mem_nil
      (t.block.toList ++ ((types.flatMap fun t => '\n' :: t.block.toList) ++ rest))
    rw [ht.splitOn_append, ih htypes] at hempty
    simpa [Produced.blockLines, physicalLines] using hempty

/-- The macros of the types, each after a line end, come before what follows. -/
theorem join_blocks (h : ∀ t ∈ types, ∀ c ∈ t.codes, '\n' ∉ c.1.toList) (rest : List Char) :
    joinContinued ((types.flatMap fun t => '\n' :: t.block.toList) ++ rest) =
      (types.flatMap fun t => '\n' :: t.macroLine) ++ joinContinued rest := by
  induction types with
  | nil => rfl
  | cons t types ih =>
    obtain ⟨ht, htypes⟩ := List.forall_mem_cons.1 h
    have hempty := ends_nil.join_append
      (t.block.toList ++ ((types.flatMap fun t => '\n' :: t.block.toList) ++ rest))
    rw [(Produced.continues_block ht).join_append, Produced.join_block ht, ih htypes] at hempty
    simpa using hempty

/-- Of the macros, and what is left after them, only the macros start one. -/
theorem filter_startsMacro_macros : ([] :: (types.map Produced.macroLine ++
    (aliases types).flatMap fun l => [l, []])).filter startsMacro =
      types.map Produced.macroLine ++ aliases types := by
  have hmacros : (types.map Produced.macroLine).filter startsMacro = types.map Produced.macroLine := by
    rw [List.filter_eq_self]
    intro l hl
    obtain ⟨t, -, rfl⟩ := List.mem_map.1 hl
    exact t.startsMacro_macroLine
  have haliases : ((aliases types).flatMap fun l => [l, []]).filter startsMacro = aliases types := by
    have hstart : ∀ l ∈ aliases types, startsMacro l = true := startsMacro_aliases
    generalize aliases types = ls at hstart
    induction ls with
    | nil => rfl
    | cons l ls ih =>
      obtain ⟨hl, hls⟩ := List.forall_mem_cons.1 hstart
      have hnil : startsMacro [] = false := by decide
      rw [List.flatMap_cons, List.cons_append, List.filter_cons_of_pos hl, List.cons_append,
        List.filter_cons_of_neg (by simp [hnil]), List.nil_append, ih hls]
  rw [List.filter_cons_of_neg (by decide), List.filter_append, hmacros, haliases]

end

/-! ### The macros of a header -/

section

variable {source : FilePath} {c : FileCode} {types : List Produced}

/-- The lines of a header. -/
theorem physicalLines_render (h : c.types = types.map Produced.typeCode)
    (hhead : ∀ l ∈ headLines source c.includes, Ends l)
    (hcodes : ∀ t ∈ types, ∀ c ∈ t.codes, '\n' ∉ c.1.toList) :
    physicalLines (render source c) = headLines source c.includes ++
      types.flatMap (fun t => [] :: t.blockLines) ++ (footLines types ++ [[]]) := by
  have hends : ∀ l ∈ footLines types, Ends l := fun l hl => ends_of_mem_footLines hl
  have hfoot := splitOn_lines (fun l hl => (hends l hl).1) []
  rw [List.append_nil, List.splitOn_nil] at hfoot
  rw [physicalLines, toList_render source h, splitOn_lines fun l hl => (hhead l hl).1,
    splitOn_blocks fun t ht => Produced.continues_block (hcodes t ht), hfoot, List.append_assoc]

/-- The lines of a header after continued ones are joined. -/
theorem logicalLines_render (h : c.types = types.map Produced.typeCode)
    (hhead : ∀ l ∈ headLines source c.includes, Ends l)
    (hcodes : ∀ t ∈ types, ∀ c ∈ t.codes, '\n' ∉ c.1.toList) :
    logicalLines (render source c) = headLines source c.includes ++
      [] :: (types.map Produced.macroLine ++ (aliases types).flatMap fun l => [l, []]) := by
  have hends : ∀ l ∈ footLines types, Ends l := fun l hl => ends_of_mem_footLines hl
  have hfoot := joinContinued_lines hends []
  rw [List.append_nil, joinContinued, List.append_nil] at hfoot
  -- each of the lines after the head now follows a line end
  have hjoined : joinContinued (render source c).toList =
      (headLines source c.includes).flatMap (· ++ ['\n']) ++
        ([] ++ (types.map Produced.macroLine ++
          (aliases types).flatMap fun l => [l, []]).flatMap ('\n' :: ·)) := by
    rw [toList_render source h, joinContinued_lines hhead, join_blocks hcodes, hfoot, footLines,
      List.flatMap_append, List.flatMap_map, List.flatMap_assoc, List.flatMap_assoc]
    simp
  have hlines : ∀ l ∈ types.map Produced.macroLine ++ (aliases types).flatMap (fun l => [l, []]),
      '\n' ∉ l := by
    intro l hl
    rcases List.mem_append.1 hl with hl | hl
    · obtain ⟨t, ht, rfl⟩ := List.mem_map.1 hl
      exact Produced.newline_notMem_macroLine (hcodes t ht)
    · obtain ⟨m, hm, hl⟩ := List.mem_flatMap.1 hl
      rcases List.mem_cons.1 hl with rfl | hl
      · exact (ends_of_mem_aliases hm).1
      · obtain rfl := List.mem_singleton.1 hl
        exact List.not_mem_nil
  rw [logicalLines, hjoined, splitOn_lines fun l hl => (hhead l hl).1,
    splitOn_append_flatMap List.not_mem_nil hlines]

end

/-- The formats of the types that have code are single lines if those of the registry are. -/
theorem newline_notMem_of_produced {r : Registry} {g : Graph} {ids : List NodeId}
    (hformats : ∀ e ∈ r.entries, '\n' ∉ e.name.toList) :
    ∀ t ∈ produced r g ids, ∀ c ∈ t.codes, '\n' ∉ c.1.toList := by
  intro t ht c hc
  obtain ⟨e, he, hname⟩ := format_of_produced ht hc
  exact hname ▸ hformats e he

/-- The lines of generated code that start a macro. -/
theorem filter_startsMacro_generate {r : Registry} {g : Graph} {ids : List NodeId}
    {source : FilePath} (hsource : '\n' ∉ (sourceName source).toList)
    (hformats : ∀ e ∈ r.entries, '\n' ∉ e.name.toList)
    (hincludes : ∀ e ∈ r.entries, ∀ i ∈ e.plugin.includes,
      '\n' ∉ i.toList ∧ i.toList.getLast? ≠ some '\\') :
    (logicalLines (render source (generate r g ids))).filter startsMacro =
      (produced r g ids).map Produced.macroLine ++ aliases (produced r g ids) := by
  have hneeded : ∀ i ∈ (generate r g ids).includes, Ends i.toList := by
    intro i hi
    obtain ⟨e, he, hmem⟩ := includes_of_generate hi
    exact hincludes e he i hmem
  have hlines := logicalLines_render (generate_types r g ids)
    (fun l hl => ends_of_mem_headLines hsource hneeded hl) (newline_notMem_of_produced hformats)
  rw [hlines, List.filter_append, filter_startsMacro_headLines, List.nil_append,
    filter_startsMacro_macros]

/-- **Every macro is one line.**  Let no format and nothing that is included hold a line end, nor the
name of the source file, and let nothing that is included end in a backslash.  Whatever the plugins
give, the lines of a header that end in a backslash are those of the blocks of the types that have
code; and of the lines that are left when these are joined, those that start a macro are one for
each of these types, which holds its code for all formats, and one more that stands for the type if
there is just one. -/
theorem macros_render (r : Registry) (g : Graph) (ids : List NodeId) (source : FilePath)
    (hsource : '\n' ∉ (sourceName source).toList)
    (hformats : ∀ e ∈ r.entries, '\n' ∉ e.name.toList)
    (hincludes : ∀ e ∈ r.entries, ∀ i ∈ e.plugin.includes,
      '\n' ∉ i.toList ∧ i.toList.getLast? ≠ some '\\') :
    let code := generate r g ids
    let types := produced r g ids
    let text := render source code
    let head := headLines source code.includes
    let foot := footLines types ++ [[]]
    physicalLines text = head ++ types.flatMap (fun t => [] :: t.blockLines) ++ foot ∧
    (∀ t ∈ types, ∀ l ∈ t.blockLines, l.getLast? = some '\\') ∧
    (∀ l ∈ head ++ [] :: foot, l.getLast? ≠ some '\\') ∧
    (logicalLines text).filter startsMacro = types.map Produced.macroLine ++ aliases types := by
  intro code types text head foot
  have htypes : code.types = types.map Produced.typeCode := generate_types r g ids
  have hcodes : ∀ t ∈ types, ∀ c ∈ t.codes, '\n' ∉ c.1.toList := by
    intro t ht c hc
    obtain ⟨e, he, hname⟩ := format_of_produced ht hc
    exact hname ▸ hformats e he
  have hneeded : ∀ i ∈ code.includes, Ends i.toList := by
    intro i hi
    obtain ⟨e, he, hmem⟩ := includes_of_generate hi
    exact hincludes e he i hmem
  have hhead : ∀ l ∈ head, Ends l := fun l hl => ends_of_mem_headLines hsource hneeded hl
  refine ⟨physicalLines_render htypes hhead hcodes, ?_, ?_, ?_⟩
  · intro t ht l hl
    exact (Produced.continues_block (hcodes t ht)).getLast?_of_mem hl
  · have hends : ∀ l ∈ head ++ [] :: foot, Ends l := by
      intro l hl
      rcases List.mem_append.1 hl with hl | hl
      · exact hhead l hl
      · rcases List.mem_cons.1 hl with rfl | hl
        · exact ends_nil
        · rcases List.mem_append.1 hl with hl | hl
          · exact ends_of_mem_footLines hl
          · obtain rfl := List.mem_singleton.1 hl
            exact ends_nil
    exact fun l hl => (hends l hl).2
  · rw [logicalLines_render htypes hhead hcodes, List.filter_append, filter_startsMacro_headLines,
      List.nil_append]
    exact filter_startsMacro_macros

/-- Plugins whose code has empty lines, comments, and backslashes at the ends of its lines. -/
def untidy : Registry where
  entries := [⟨"A", ⟨"A", 0, ["<a.h>"], fun _ _ => .ok "x \\\n\n// y\r\nz"⟩, 0⟩,
    ⟨"B", ⟨"B", 0, ["<b.h>"], fun _ _ => .ok ""⟩, 0⟩]

/-- Types that ask for formats, one of which has no plugin. -/
def askers : Graph := ⟨[⟨"s::T", .all, ["B", "C", "A"], [], []⟩, ⟨"U", .all, ["C"], [], []⟩]⟩

theorem macros_render_untidy :
    ('\n' ∉ (sourceName ⟨"src/T.h"⟩).toList ∧ (∀ e ∈ untidy.entries, '\n' ∉ e.name.toList) ∧
      ∀ e ∈ untidy.entries, ∀ i ∈ e.plugin.includes,
        '\n' ∉ i.toList ∧ i.toList.getLast? ≠ some '\\') ∧
    (logicalLines (render ⟨"src/T.h"⟩ (generate untidy askers [0, 1]))).filter startsMacro =
      ["#define s_T_SERIALIZATION_BODY() /* Format: B */ /* Format: A */ x \\  /* y */ z ".toList,
        "#define GENERATED_SERIALIZATION_BODY() s_T_SERIALIZATION_BODY()".toList] := by
  have hsource : '\n' ∉ (sourceName ⟨"src/T.h"⟩).toList := by decide
  have hformats : ∀ e ∈ untidy.entries, '\n' ∉ e.name.toList := by decide
  have hincludes : ∀ e ∈ untidy.entries, ∀ i ∈ e.plugin.includes,
      '\n' ∉ i.toList ∧ i.toList.getLast? ≠ some '\\' := by decide
  obtain ⟨-, -, -, hmacros⟩ :=
    macros_render untidy askers [0, 1] ⟨"src/T.h"⟩ hsource hformats hincludes
  exact ⟨⟨hsource, hformats, hincludes⟩, hmacros.trans (by decide +kernel)⟩

end Header
end Marshal
